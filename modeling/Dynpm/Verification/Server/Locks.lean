import Dynpm.Model.ServerLocks

/-! # Balanced locks in the server callbacks

`_server_on_read` returns inside its locked loop when an allocation fails, and `_server_on_error`
unlocks the mutex of a connection twice that it has never locked. All other paths of the callbacks
leave the mutexes as they were.
-/

namespace Dynpm.ServerLocks

open Library

variable {κ : Type}

/-- The number of messages that reads of the given sizes complete, up to the one that returns no
byte. -/
def fullMessages : ℕ → List ℕ → ℕ
  | _, [] => 0
  | messageBytesRead, size :: sizes =>
      if size = 0 then 0
      else if messageBytesRead + size < maxMessageSize then
        fullMessages (messageBytesRead + size) sizes
      else fullMessages 0 sizes + 1

/-- If an allocation fails at all while this number of messages is read, the first that does is one
of a read buffer, that is every third. -/
def BuffersFailFirst (malloc : ℕ → Bool) (messages : ℕ) : Prop :=
  ∀ k ≤ 3 * messages, malloc k = false → (∀ i < k, malloc i = true) → k % 3 = 0

theorem buffersFailFirst_zero (malloc : ℕ → Bool) : BuffersFailFirst malloc 0 := by
  intro k hk _ _
  omega

/-- Nothing is allocated after the first read buffer if there is none. -/
theorem buffersFailFirst_of_false {malloc : ℕ → Bool} (h : malloc 0 = false) (messages : ℕ) :
    BuffersFailFirst malloc messages := by
  intro k _ _ hbefore
  cases k with
  | zero => rfl
  | succ k => exact absurd (hbefore 0 (by omega)) (by simp [h])

/-- One message takes a work unit, its data and a new read buffer. -/
theorem buffersFailFirst_succ {malloc : ℕ → Bool} (h : malloc 0 = true) (messages : ℕ) :
    BuffersFailFirst malloc (messages + 1) ↔
      malloc 1 = true ∧ malloc 2 = true ∧ BuffersFailFirst (fun i => malloc (i + 3)) messages := by
  constructor
  · intro hfirst
    have h1 : malloc 1 = true := by
      by_contra hfalse
      have := hfirst 1 (by omega) (by simpa using hfalse) fun i hi => by
        rcases i with _ | i
        · exact h
        · omega
      omega
    have h2 : malloc 2 = true := by
      by_contra hfalse
      have := hfirst 2 (by omega) (by simpa using hfalse) fun i hi => by
        rcases i with _ | _ | i
        · exact h
        · exact h1
        · omega
      omega
    refine ⟨h1, h2, ?_⟩
    intro k hk hfalse hbefore
    have := hfirst (k + 3) (by omega) hfalse fun i hi => by
      rcases i with _ | _ | _ | i
      · exact h
      · exact h1
      · exact h2
      · exact hbefore i (by omega)
    omega
  · rintro ⟨h1, h2, hrest⟩ k hk hfalse hbefore
    rcases k with _ | _ | _ | k
    · rfl
    · exact absurd hfalse (by simp [h1])
    · exact absurd hfalse (by simp [h2])
    · have := hrest k (by omega) hfalse fun i hi => hbefore (i + 3) (by omega)
      omega

variable [DecidableEq κ]

/-- The loop is entered with the mutex of the connection and gives it back unless a `return` leaves
it. -/
theorem serverOnReadLoop_returnsWith_iff (c : κ) (malloc : ℕ → Bool) {held : Finset (Mutex κ)}
    (hfree : .connection c ∉ held) (sizes : List ℕ) (messageBytesRead k : ℕ) :
    ReturnsWith held (insert (.connection c) held)
        (serverOnReadLoop c malloc sizes messageBytesRead k) ↔
      BuffersFailFirst (fun i => malloc (i + k)) (fullMessages messageBytesRead sizes) := by
  have hlost : insert (.connection c) held ≠ held := fun heq => hfree (Finset.insert_eq_self.mp heq)
  have hunlock : ReturnsWith held (insert (.connection c) held) [.unlock (.connection c)] :=
    returnsWith_unlock_insert hfree
  induction sizes generalizing messageBytesRead k with
  | nil =>
      exact iff_of_true hunlock (buffersFailFirst_zero _)
  | cons size sizes ih =>
      rw [serverOnReadLoop, fullMessages]
      by_cases hsize : size = 0
      · rw [if_pos hsize, if_pos hsize]
        exact iff_of_true hunlock (buffersFailFirst_zero _)
      rw [if_neg hsize, if_neg hsize]
      by_cases hbuffer : malloc k = false
      · rw [if_pos hbuffer]
        exact iff_of_true returnsWith_exit (buffersFailFirst_of_false (by simpa using hbuffer) _)
      rw [if_neg hbuffer]
      by_cases hpart : messageBytesRead + size < maxMessageSize
      · rw [if_pos hpart, if_pos hpart]
        exact ih (messageBytesRead + size) k
      rw [if_neg hpart, if_neg hpart, buffersFailFirst_succ (by simpa using hbuffer)]
      by_cases hunit : malloc (k + 1) = false
      · rw [if_pos hunit, returnsWith_nil]
        refine iff_of_false hlost ?_
        rintro ⟨h1, -, -⟩
        exact absurd h1 (by simp [Nat.add_comm 1 k, hunit])
      rw [if_neg hunit]
      by_cases hdata : malloc (k + 2) = false
      · rw [if_pos hdata, returnsWith_nil]
        refine iff_of_false hlost ?_
        rintro ⟨-, h2, -⟩
        exact absurd h2 (by simp [Nat.add_comm 2 k, hdata])
      rw [if_neg hdata]
      refine (ih 0 (k + 3)).trans ?_
      simp only [Bool.not_eq_false] at hunit hdata
      rw [Nat.add_comm 1 k, Nat.add_comm 2 k, hunit, hdata]
      simp only [Nat.add_assoc, Nat.add_comm 3 k, true_and]

theorem serverOnRead_keepsLocks_iff (c : κ) (malloc : ℕ → Bool) (sizes : List ℕ)
    (messageBytesRead : ℕ) (held : Finset (Mutex κ)) :
    KeepsLocks held (serverOnRead c malloc sizes messageBytesRead) ↔
      .connection c ∈ held ∨ BuffersFailFirst malloc (fullMessages messageBytesRead sizes) := by
  rw [KeepsLocks, serverOnRead, returnsWith_lock]
  by_cases hmem : .connection c ∈ held
  · simp only [hmem, true_or]
  · rw [serverOnReadLoop_returnsWith_iff c malloc hmem]
    rfl

theorem serverOnWrite_keepsLocks (c : Option κ) (held : Finset (Mutex κ)) :
    KeepsLocks held (serverOnWrite c) := by
  cases c with
  | none => exact returnsWith_exit
  | some c => exact keepsLocks_lock_unlock (.connection c) held

theorem serverOnError_keepsLocks_iff (c : κ) (what : BitVec 16) (held : Finset (Mutex κ)) :
    KeepsLocks held (serverOnError c what) ↔
      .registration ∈ held ∨ what &&& bevEventEof = 0 ∨ what &&& bevEventReading = 0 := by
  rw [serverOnError]
  by_cases heof : what &&& bevEventEof = 0
  · rw [if_neg (not_not.mpr heof)]
    exact iff_of_true (keepsLocks_lock_unlock .registration held) (Or.inr (Or.inl heof))
  rw [if_pos heof]
  by_cases hreading : what &&& bevEventReading = 0
  · rw [if_neg (not_not.mpr hreading)]
    exact iff_of_true (keepsLocks_lock_unlock .registration held) (Or.inr (Or.inr hreading))
  · rw [if_pos hreading, KeepsLocks, returnsWith_lock, returnsWith_unlock, returnsWith_unlock]
    constructor
    · rintro (hmem | ⟨-, htwice, -⟩)
      · exact Or.inl hmem
      -- the first unlock has released the mutex that the second is for
      · exact absurd htwice (Finset.notMem_erase _ _)
    · rintro (hmem | hzero | hzero)
      · exact Or.inl hmem
      · exact absurd hzero heof
      · exact absurd hzero hreading

theorem serverToClientSendProgress_keepsLocks (c : Option κ) (held : Finset (Mutex κ)) :
    KeepsLocks held (serverToClientSendProgress c) := by
  cases c with
  | none => exact keepsLocks_lock_unlock .registration held
  | some c =>
      by_cases hregistration : .registration ∈ held
      · simp [KeepsLocks, serverToClientSendProgress, hregistration]
      by_cases hconnection : .connection c ∈ held
      · simp [KeepsLocks, serverToClientSendProgress, hconnection]
      have hfree : .connection c ∉ insert .registration held := by simp [hconnection]
      rw [KeepsLocks, serverToClientSendProgress, returnsWith_lock, returnsWith_lock,
        returnsWith_unlock, Finset.erase_insert hfree]
      exact Or.inr (Or.inr ⟨Finset.mem_insert_self _ _, returnsWith_unlock_insert hregistration⟩)

/-! ## Threads -/

/-- The call does not reach the defects: a work unit and its data are allocated as long as there is
a read buffer, and an end of file is not one of reading. A call of a thread that holds the mutex
already waits for ever. -/
def Callback.Harmless (held : Finset (Mutex κ)) : Callback κ → Prop
  | .serverOnRead c malloc sizes messageBytesRead =>
      .connection c ∈ held ∨ BuffersFailFirst malloc (fullMessages messageBytesRead sizes)
  | .serverOnError _ what =>
      .registration ∈ held ∨ what &&& bevEventEof = 0 ∨ what &&& bevEventReading = 0
  | .serverOnWrite _ | .serverToClientSendProgress _ | .registerClientConnection _ => True

theorem keepsLocks_iff_harmless (callback : Callback κ) (held : Finset (Mutex κ)) :
    KeepsLocks held callback.locks ↔ callback.Harmless held := by
  cases callback with
  | serverOnRead c malloc sizes messageBytesRead =>
      exact serverOnRead_keepsLocks_iff c malloc sizes messageBytesRead held
  | serverOnWrite c => exact iff_of_true (serverOnWrite_keepsLocks c held) trivial
  | serverOnError c what => exact serverOnError_keepsLocks_iff c what held
  | serverToClientSendProgress c =>
      exact iff_of_true (serverToClientSendProgress_keepsLocks c held) trivial
  | registerClientConnection c =>
      exact iff_of_true (keepsLocks_lock_unlock (Mutex.connection c) held) trivial

/-- The calls that a run of threads starts are harmless. -/
def StartsHarmless {ι : Type} (_ : Threads ι (Mutex κ)) : ThreadAction ι (Callback κ) → Prop
  | .call _ callback => callback.Harmless ∅
  | .next _ => True

/-- The callbacks and the registration as threads execute them. -/
def threads (ι κ : Type) [DecidableEq ι] [DecidableEq κ] :
    System (Threads ι (Mutex κ)) (ThreadAction ι (Callback κ)) :=
  threadSystem Callback.locks

/-- A callback keeps its locks if and only if it does not reach one of the two defects, and threads
whose callbacks do not reach them never release a mutex of each other, in any interleaving. -/
theorem callbacks_keep_locks_iff {ι : Type} [DecidableEq ι] (callback : Callback κ)
    (held : Finset (Mutex κ)) (actions : List (ThreadAction ι (Callback κ))) :
    (KeepsLocks held callback.locks ↔ callback.Harmless held) ∧
      ((threads ι κ).Respecting StartsHarmless Threads.idle actions →
        (threads ι κ).Respecting UnlocksOwn Threads.idle actions) := by
  refine ⟨keepsLocks_iff_harmless callback held, ?_⟩
  intro h
  apply unlocksOwn_of_keepsLocks
  refine System.Respecting.imp (I := fun _ => True) ?_ trivial h
  intro s action t _ hharmless _
  refine ⟨?_, trivial⟩
  cases action with
  | call i callback => exact (keepsLocks_iff_harmless callback ∅).mpr hharmless
  | next i => trivial

/-- A client goes away while another thread registers it: the callback unlocks the mutex of the
connection that the registration has locked. -/
def registeredAtEof : List (ThreadAction Bool (Callback ℕ)) :=
  [.call false (.registerClientConnection 0), .next false,
    .call true (.serverOnError 0 (bevEventEof ||| bevEventReading)), .next true, .next true]

/-- A message is read, and every allocation succeeds. -/
def readMessage : Callback ℕ := .serverOnRead 0 (fun _ => true) [maxMessageSize] 0

/-- One thread registers the connection and then handles a time-out, while another one reads a
message. -/
def registeredAtRead : List (ThreadAction Bool (Callback ℕ)) :=
  [.call false (.registerClientConnection 0), .call true readMessage, .next false, .next false,
    .next true, .call false (.serverOnError 0 bevEventReading), .next false, .next true,
    .next false]

/-- All three calls return, and each mutex is free again. -/
theorem registeredAtRead_keeps_locks :
    KeepsLocks ∅ readMessage.locks ∧
      (threads Bool ℕ).Respecting UnlocksOwn Threads.idle registeredAtRead ∧
      ∃ t, (threads Bool ℕ).run Threads.idle registeredAtRead = some t ∧
        t.code false = [] ∧ t.code true = [] ∧
        t.owner .registration = none ∧ t.owner (.connection 0) = none := by
  have hread : readMessage.Harmless ∅ := by
    right
    intro k _ hfalse
    exact absurd hfalse (by simp)
  have hharmless : (threads Bool ℕ).Respecting StartsHarmless Threads.idle registeredAtRead := by
    apply System.respecting_of_forall
    intro action hmem s
    simp only [registeredAtRead, List.mem_cons, List.not_mem_nil, or_false] at hmem
    rcases hmem with rfl | rfl | rfl | rfl | rfl | rfl | rfl | rfl | rfl
    case inr.inl => exact hread
    case inr.inr.inr.inr.inr.inl => exact Or.inr (Or.inl (by decide))
    all_goals trivial
  have hkeeps := callbacks_keep_locks_iff readMessage ∅ registeredAtRead
  refine ⟨hkeeps.1.mpr hread, hkeeps.2 hharmless, ?_⟩
  have hrun : ((threads Bool ℕ).run Threads.idle registeredAtRead).map
      (fun t => (t.code false, t.code true, t.owner .registration, t.owner (.connection 0))) =
        some ([], [], none, none) := by
    decide
  obtain ⟨t, ht, hvalue⟩ := Option.map_eq_some_iff.mp hrun
  simp only [Prod.mk.injEq] at hvalue
  exact ⟨t, ht, hvalue⟩

/-- `_server_on_read` returns with the mutex of the connection if the first work unit cannot be
allocated, and `_server_on_error` releases it while another thread holds it. -/
theorem locks_not_kept :
    ¬ KeepsLocks ∅ (serverOnRead 0 (fun k => k ≠ 1) [maxMessageSize] 0) ∧
      ¬ KeepsLocks ∅ (serverOnError 0 (bevEventEof ||| bevEventReading)) ∧
      ¬ (threads Bool ℕ).Respecting UnlocksOwn Threads.idle registeredAtEof := by
  refine ⟨?_, ?_, ?_⟩
  · rw [serverOnRead_keepsLocks_iff]
    rintro (hmem | hfirst)
    · exact absurd hmem (by decide)
    · exact absurd (hfirst 1 (by decide) rfl (by decide)) (by decide)
  · rw [serverOnError_keepsLocks_iff]
    decide
  · intro h
    obtain ⟨-, h⟩ := h _ rfl
    obtain ⟨-, h⟩ := h _ rfl
    obtain ⟨-, h⟩ := h _ rfl
    obtain ⟨-, h⟩ := h _ rfl
    obtain ⟨hunlocks, -⟩ := h _ rfl
    exact absurd (hunlocks (.connection 0) _ rfl) (by decide)

end Dynpm.ServerLocks
