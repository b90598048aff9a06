import Dynpm.Model.ServerRead
import Mathlib.Data.List.Infix

/-! # Frame reassembly in the read callback of the server

The bytes of a partial message are freed at the end of the callback that read them, while the
static count survives. From then on the callbacks of all connections add to that count, and
the first one that brings it to the size of a frame produces a wrong message or writes behind
the buffer.
-/

namespace Dynpm.ServerRead

open Library

variable {κ : Type}

/-! ## The loop -/

@[simp] theorem length_mallocBuffer (malloc : ℕ → ℕ → UInt8) (k : ℕ) :
    (mallocBuffer malloc k).length = maxMessageSize := by
  simp [mallocBuffer]

theorem head?_take_mallocBuffer (malloc : ℕ → ℕ → UInt8) (k : ℕ) {count : ℕ} (h : 0 < count) :
    ((mallocBuffer malloc k).take count).head? = some (malloc k 0) := by
  rw [List.head?_take, if_neg h.ne', mallocBuffer, List.head?_map, List.head?_range]
  rfl

theorem onReadLoop_nil (malloc : ℕ → ℕ → UInt8) (connection : κ) (readBuffer : List UInt8)
    (s : State κ) : onReadLoop malloc connection [] readBuffer s = s := by
  rw [onReadLoop, if_pos rfl]

/-- Bytes that do not fill the message leave the loop and are forgotten. -/
theorem onReadLoop_short (malloc : ℕ → ℕ → UInt8) (connection : κ)
    (available readBuffer : List UInt8) (s : State κ) (hne : available ≠ [])
    (h : s.messageBytesRead + available.length < maxMessageSize) :
    onReadLoop malloc connection available readBuffer s = s.readBytes available.length := by
  have htake : available.take maxMessageSize = available := List.take_of_length_le (by omega)
  have hdrop : available.drop maxMessageSize = [] := List.drop_of_length_le (by omega)
  have hcount : (s.readBytes available.length).messageBytesRead < maxMessageSize := h
  rw [onReadLoop, if_neg hne]
  simp only [htake, hdrop]
  rw [if_pos hcount, onReadLoop_nil]

/-- A read that fills the message enqueues it and continues with a new buffer. -/
theorem onReadLoop_full (malloc : ℕ → ℕ → UInt8) (connection : κ)
    (available readBuffer : List UInt8) (s : State κ) (hne : available ≠ [])
    (h : maxMessageSize ≤ s.messageBytesRead + (available.take maxMessageSize).length) :
    onReadLoop malloc connection available readBuffer s =
      onReadLoop malloc connection (available.drop maxMessageSize)
        (mallocBuffer malloc s.mallocs)
        ((s.readBytes (available.take maxMessageSize).length).enqueueMessage connection
          (store readBuffer s.messageBytesRead (available.take maxMessageSize))) := by
  have hcount : ¬ (s.readBytes (available.take maxMessageSize).length).messageBytesRead <
      maxMessageSize := Nat.not_lt.mpr h
  rw [onReadLoop, if_neg hne]
  simp only
  rw [if_neg hcount]
  rfl

/-- The loop only adds to the stores and to the work units, and never drops a callback. -/
theorem onReadLoop_mono (malloc : ℕ → ℕ → UInt8) (connection : κ)
    (available readBuffer : List UInt8) (s : State κ) :
    s.stores ⊆ (onReadLoop malloc connection available readBuffer s).stores ∧
      (onReadLoop malloc connection available readBuffer s).received = s.received := by
  fun_induction onReadLoop malloc connection available readBuffer s with
  | case1 => exact ⟨List.Subset.refl _, rfl⟩
  | case2 available readBuffer s hne chunk buffer s' hlt ih =>
      exact ⟨fun access h => ih.1 (List.mem_append_left _ h), ih.2⟩
  | case3 available readBuffer s hne chunk buffer s' hge ih =>
      exact ⟨fun access h => ih.1 (List.mem_append_left _ h), ih.2⟩

/-- What a callback does that starts at a message boundary: its complete frames are enqueued
and the rest only advances the count. -/
structure AlignedSpec (connection : κ) (available : List UInt8) (s t : State κ) : Prop where
  count : t.messageBytesRead = available.length % maxMessageSize
  units : t.workUnits = s.workUnits ++ (frames maxMessageSize available).map (connection, ·)
  stores : ∀ access ∈ t.stores, access ∈ s.stores ∨ access.1 + access.2 ≤ maxMessageSize

theorem onReadLoop_aligned (malloc : ℕ → ℕ → UInt8) (connection : κ)
    (available readBuffer : List UInt8) (s : State κ) (hcount : s.messageBytesRead = 0) :
    AlignedSpec connection available s (onReadLoop malloc connection available readBuffer s) := by
  by_cases hne : available = []
  · subst available
    rw [onReadLoop_nil]
    exact ⟨by simpa using hcount, by simp [frames], fun access h => Or.inl h⟩
  · by_cases hlt : available.length < maxMessageSize
    · rw [onReadLoop_short malloc connection available readBuffer s hne (by omega)]
      refine ⟨?_, ?_, ?_⟩
      · rw [Nat.mod_eq_of_lt hlt]
        simp [State.readBytes, hcount]
      · rw [frames_of_lt hlt]
        simp [State.readBytes]
      · intro access h
        rcases List.mem_append.mp h with h | h
        · exact Or.inl h
        · obtain rfl := List.mem_singleton.mp h
          right
          simp only [hcount]
          omega
    · have htake : (available.take maxMessageSize).length = maxMessageSize := by
        rw [List.length_take]
        omega
      have hstore : (store readBuffer 0 (available.take maxMessageSize)).take maxMessageSize =
          available.take maxMessageSize := by
        rw [store, List.take_zero, List.nil_append, ← htake]
        simp
      rw [onReadLoop_full malloc connection available readBuffer s hne (by omega)]
      have ih := onReadLoop_aligned malloc connection (available.drop maxMessageSize)
        (mallocBuffer malloc s.mallocs)
        ((s.readBytes (available.take maxMessageSize).length).enqueueMessage connection
          (store readBuffer s.messageBytesRead (available.take maxMessageSize)))
        rfl
      refine ⟨?_, ?_, ?_⟩
      · rw [ih.count, List.length_drop, ← Nat.mod_eq_sub_mod (by omega)]
      · rw [ih.units]
        conv_rhs => rw [← List.take_append_drop maxMessageSize available,
          frames_block_append (by decide) htake]
        simp [State.enqueueMessage, State.readBytes, hcount, hstore]
      · intro access h
        rcases ih.stores access h with h | h
        · rcases List.mem_append.mp h with h | h
          · exact Or.inl h
          · obtain rfl := List.mem_singleton.mp h
            right
            simp only [hcount, htake]
            omega
        · exact Or.inr h
termination_by available.length
decreasing_by
  have := List.length_pos_iff.mpr hne
  simp only [maxMessageSize, List.length_drop]
  omega

/-! ## One callback -/

theorem received_onRead (malloc : ℕ → ℕ → UInt8) (s : State κ) (callback : Callback κ) :
    (onRead malloc s callback).received = s.received ++ [callback] :=
  (onReadLoop_mono malloc _ _ _ _).2

/-- A callback in the middle of a message that brings the count exactly to the size of a frame
enqueues a message whose front is what `malloc` left in the new buffer. -/
theorem onRead_completes (malloc : ℕ → ℕ → UInt8) (s : State κ) (callback : Callback κ)
    (hpos : 0 < s.messageBytesRead) (hlt : s.messageBytesRead < maxMessageSize)
    (h : s.messageBytesRead + callback.2.length = maxMessageSize) :
    (onRead malloc s callback).workUnits = s.workUnits ++
      [(callback.1, (mallocBuffer malloc s.mallocs).take s.messageBytesRead ++ callback.2)] := by
  have htake : callback.2.take maxMessageSize = callback.2 := List.take_of_length_le (by omega)
  have hdrop : callback.2.drop maxMessageSize = [] := List.drop_of_length_le (by omega)
  have hne : callback.2 ≠ [] := List.length_pos_iff.mp (by omega)
  unfold onRead
  rw [onReadLoop_full _ _ _ _ _ hne (by rw [htake]; exact h.ge), hdrop, onReadLoop_nil, htake]
  have hbuffer : (store (mallocBuffer malloc s.mallocs) s.messageBytesRead callback.2).take
      maxMessageSize = (mallocBuffer malloc s.mallocs).take s.messageBytesRead ++ callback.2 := by
    rw [store, List.drop_of_length_le (by simp [h]), List.append_nil, List.take_of_length_le]
    simp only [List.length_append, List.length_take, length_mallocBuffer]
    omega
  simp only [State.enqueueMessage, State.readBytes, hbuffer]

variable [DecidableEq κ]

theorem streamOf_append (connection : κ) (callbacks : List (Callback κ)) (callback : Callback κ) :
    streamOf connection (callbacks ++ [callback]) =
      streamOf connection callbacks ++ if callback.1 = connection then callback.2 else [] := by
  by_cases h : callback.1 = connection <;> simp [streamOf, h]

theorem messagesOf_append (connection : κ) {s t : State κ} {c : κ} (messages : List (List UInt8))
    (h : t.workUnits = s.workUnits ++ messages.map (c, ·)) :
    t.messagesOf connection =
      s.messagesOf connection ++ if c = connection then messages else [] := by
  by_cases hc : c = connection
  · simp [State.messagesOf, h, hc, List.filter_map, Function.comp_def]
  · simp [State.messagesOf, h, hc, List.filter_map, Function.comp_def]

/-- While reassembly is correct, the unfinished bytes of every connection are among those the
static count accounts for. -/
structure Invariant (s : State κ) : Prop where
  reassembled : s.Reassembled
  remainder : ∀ connection,
    (streamOf connection s.received).length % maxMessageSize ≤ s.messageBytesRead
  count_lt : s.messageBytesRead < maxMessageSize

theorem invariant_initial : Invariant (initial : State κ) where
  reassembled := ⟨by simp [initial, State.messagesOf, streamOf, frames], by simp [initial]⟩
  remainder := by simp [initial, streamOf]
  count_lt := by simp [initial, maxMessageSize]

/-- A callback at a message boundary keeps the invariant, whatever it delivers. -/
theorem Invariant.onRead_aligned {s : State κ} (h : Invariant s) (malloc : ℕ → ℕ → UInt8)
    (callback : Callback κ) (hcount : s.messageBytesRead = 0) :
    Invariant (onRead malloc s callback) ∧
      (onRead malloc s callback).messageBytesRead = callback.2.length % maxMessageSize := by
  have hspec := onReadLoop_aligned malloc callback.1 callback.2 (mallocBuffer malloc s.mallocs)
    { s with mallocs := s.mallocs + 1, received := s.received ++ [callback] } hcount
  have hdvd : ∀ connection, maxMessageSize ∣ (streamOf connection s.received).length := by
    intro connection
    have := h.remainder connection
    exact Nat.dvd_of_mod_eq_zero (by omega)
  refine ⟨⟨⟨?_, ?_⟩, ?_, ?_⟩, hspec.count⟩
  · intro connection
    have hmessages : (onRead malloc s callback).messagesOf connection = s.messagesOf connection ++
        if callback.1 = connection then frames maxMessageSize callback.2 else [] :=
      messagesOf_append connection _ hspec.units
    rw [hmessages, received_onRead, streamOf_append, h.reassembled.1 connection,
      frames_append (by decide) _ _ (hdvd connection)]
    congr 1
    split
    · rfl
    · exact (frames_of_lt (by decide)).symm
  · intro access hmem
    rcases hspec.stores access hmem with hmem | hle
    · exact h.reassembled.2 access hmem
    · exact hle
  · intro connection
    have hlen : (onRead malloc s callback).messageBytesRead =
        callback.2.length % maxMessageSize := hspec.count
    rw [received_onRead, streamOf_append, hlen, List.length_append, Nat.add_mod,
      Nat.mod_eq_zero_of_dvd (hdvd connection), Nat.zero_add, Nat.mod_mod]
    split
    · exact le_rfl
    · simp
  · rw [show (onRead malloc s callback).messageBytesRead = _ from hspec.count]
    exact Nat.mod_lt _ (by decide)

/-- A callback in the middle of a message keeps the invariant as long as it does not bring the
count to the size of a frame. -/
theorem Invariant.onRead_short {s : State κ} (h : Invariant s) (malloc : ℕ → ℕ → UInt8)
    (callback : Callback κ) (hlt : s.messageBytesRead + callback.2.length < maxMessageSize) :
    Invariant (onRead malloc s callback) ∧
      (onRead malloc s callback).messageBytesRead = s.messageBytesRead + callback.2.length := by
  have hcount : (onRead malloc s callback).messageBytesRead =
      s.messageBytesRead + callback.2.length ∧
      (onRead malloc s callback).workUnits = s.workUnits ∧
      ∀ access ∈ (onRead malloc s callback).stores,
        access ∈ s.stores ∨ access.1 + access.2 ≤ maxMessageSize := by
    unfold onRead
    by_cases hne : callback.2 = []
    · rw [hne, onReadLoop_nil]
      exact ⟨by simp, rfl, fun access hmem => Or.inl hmem⟩
    · rw [onReadLoop_short malloc callback.1 callback.2 _
        { s with mallocs := s.mallocs + 1, received := s.received ++ [callback] } hne hlt]
      refine ⟨rfl, rfl, ?_⟩
      intro access hmem
      rcases List.mem_append.mp hmem with hmem | hmem
      · exact Or.inl hmem
      · obtain rfl := List.mem_singleton.mp hmem
        exact Or.inr hlt.le
  obtain ⟨hcount, hunits, hstores⟩ := hcount
  refine ⟨⟨⟨?_, ?_⟩, ?_, ?_⟩, hcount⟩
  · intro connection
    have hrem := h.remainder connection
    rw [received_onRead, streamOf_append, frames_append_of_lt]
    · rw [State.messagesOf, hunits]
      exact h.reassembled.1 connection
    · split
      · omega
      · simp only [List.length_nil]
        omega
  · intro access hmem
    rcases hstores access hmem with hmem | hle
    · exact h.reassembled.2 access hmem
    · exact hle
  · intro connection
    have hrem := h.remainder connection
    rw [received_onRead, streamOf_append, hcount, List.length_append]
    split
    · rw [Nat.add_mod, Nat.mod_eq_of_lt (by omega : callback.2.length < maxMessageSize),
        Nat.mod_eq_of_lt (by omega)]
      omega
    · simp only [List.length_nil, Nat.add_zero]
      omega
  · omega

/-- A callback in the middle of a message that brings the count to the size of a frame or
beyond breaks reassembly for some contents of the memory that `malloc` returns. -/
theorem exists_not_reassembled (s : (ℕ → ℕ → UInt8) → State κ) (callback : Callback κ)
    (count : ℕ) (received : List (Callback κ)) (hs : ∀ malloc, (s malloc).messageBytesRead = count)
    (hreceived : ∀ malloc, (s malloc).received = received) (hpos : 0 < count)
    (hlt : count < maxMessageSize) (h : maxMessageSize ≤ count + callback.2.length) :
    ∃ malloc, ¬ (onRead malloc (s malloc) callback).Reassembled := by
  by_contra hall
  push Not at hall
  by_cases hexact : count + callback.2.length = maxMessageSize
  · have hmessages : ∀ malloc, (s malloc).messagesOf callback.1 ++
        [(mallocBuffer malloc (s malloc).mallocs).take count ++ callback.2] =
          frames maxMessageSize (streamOf callback.1 (received ++ [callback])) := by
      intro malloc
      have hunits := onRead_completes malloc (s malloc) callback (by rwa [hs]) (by rwa [hs])
        (by rwa [hs])
      have hlast := messagesOf_append callback.1 [_] hunits
      rw [if_pos rfl, (hall malloc).1 callback.1, received_onRead, hreceived, hs] at hlast
      exact hlast.symm
    have hzero := hmessages fun _ _ => 0
    have hone := hmessages fun _ _ => 1
    have hlast := (List.append_eq_append_iff_of_size_eq_right (by simp)).mp (hzero.trans hone.symm)
    have hfront := List.append_cancel_right (List.singleton_inj.mp hlast.2)
    have hhead := congrArg List.head? hfront
    rw [head?_take_mallocBuffer _ _ hpos, head?_take_mallocBuffer _ _ hpos] at hhead
    exact absurd (Option.some.inj hhead) (by decide)
  · have hbound := (hall fun _ _ => 0).2 (count, (callback.2.take maxMessageSize).length) ?_
    · rw [List.length_take] at hbound
      simp only at hbound
      omega
    · have hne : callback.2 ≠ [] := List.length_pos_iff.mp (by omega)
      unfold onRead
      rw [onReadLoop_full _ _ _ _ _ hne]
      · apply (onReadLoop_mono _ _ _ _ _).1
        apply List.mem_append_right
        simp [hs]
      · simp only [hs, List.length_take]
        omega

/-! ## Whole runs -/

/-- The callbacks deliver whole frames up to some point, and what is left of the first one that
does not, together with all bytes delivered afterwards, stays below the size of a frame. -/
def WholeFrames (lengths : List ℕ) : Prop :=
  ∃ whole rest, lengths = whole ++ rest ∧ (∀ length ∈ whole, maxMessageSize ∣ length) ∧
    ∀ first later, rest = first :: later → first % maxMessageSize + later.sum < maxMessageSize

/-- What the remaining callbacks may deliver when the static count is `count`. -/
def Deliverable (count : ℕ) (lengths : List ℕ) : Prop :=
  if count = 0 then WholeFrames lengths else count + lengths.sum < maxMessageSize

theorem deliverable_nil {count : ℕ} (h : count < maxMessageSize) : Deliverable count [] := by
  unfold Deliverable
  split
  · exact ⟨[], [], rfl, by simp, by simp⟩
  · simpa using h

/-- At a message boundary only the remainder of the next callback matters. -/
theorem wholeFrames_cons (length : ℕ) (lengths : List ℕ) :
    WholeFrames (length :: lengths) ↔ Deliverable (length % maxMessageSize) lengths := by
  unfold Deliverable
  constructor
  · rintro ⟨whole, rest, heq, hwhole, hrest⟩
    cases whole with
    | nil =>
        have hsum := hrest length lengths heq.symm
        split
        · refine ⟨[], lengths, rfl, by simp, ?_⟩
          rintro first later rfl
          have := Nat.mod_le first maxMessageSize
          rw [List.sum_cons] at hsum
          omega
        · exact hsum
    | cons head whole =>
        obtain ⟨rfl, rfl⟩ := List.cons.inj heq
        have hhead := Nat.mod_eq_zero_of_dvd (hwhole length List.mem_cons_self)
        rw [if_pos hhead]
        exact ⟨whole, rest, rfl, fun l hl => hwhole l (List.mem_cons_of_mem _ hl), hrest⟩
  · intro h
    split at h
    case isTrue hzero =>
      obtain ⟨whole, rest, rfl, hwhole, hrest⟩ := h
      refine ⟨length :: whole, rest, rfl, ?_, hrest⟩
      intro l hl
      rcases List.mem_cons.mp hl with rfl | hl
      · exact Nat.dvd_of_mod_eq_zero hzero
      · exact hwhole l hl
    case isFalse =>
      refine ⟨[], length :: lengths, rfl, by simp, ?_⟩
      intro first later heq
      obtain ⟨rfl, rfl⟩ := List.cons.inj heq
      exact h

/-- In the middle of a message the next callback must leave the frame incomplete. -/
theorem deliverable_cons {count : ℕ} (hcount : count ≠ 0) (length : ℕ) (lengths : List ℕ) :
    Deliverable count (length :: lengths) ↔
      count + length < maxMessageSize ∧ Deliverable (count + length) lengths := by
  rw [Deliverable, Deliverable, if_neg hcount, if_neg (by omega), List.sum_cons]
  omega

/-- Every state along the given callbacks is reassembled. -/
def ReassembledAlong (malloc : ℕ → ℕ → UInt8) (s : State κ) (callbacks : List (Callback κ)) :
    Prop :=
  ∀ front, front <+: callbacks → (front.foldl (onRead malloc) s).Reassembled

theorem reassembledAlong_cons (malloc : ℕ → ℕ → UInt8) (s : State κ) (callback : Callback κ)
    (callbacks : List (Callback κ)) :
    ReassembledAlong malloc s (callback :: callbacks) ↔
      s.Reassembled ∧ ReassembledAlong malloc (onRead malloc s callback) callbacks := by
  constructor
  · intro h
    refine ⟨h [] List.nil_prefix, ?_⟩
    intro front hfront
    exact h (callback :: front) (List.cons_prefix_cons.mpr ⟨rfl, hfront⟩)
  · rintro ⟨hs, h⟩ front hfront
    rcases List.prefix_cons_iff.mp hfront with rfl | ⟨front', rfl, hfront'⟩
    · exact hs
    · exact h front' hfront'

/-- The induction over the callbacks. The states differ by what `malloc` returned and share
the static count and the bytes received. -/
theorem reassembledAlong_iff (s : (ℕ → ℕ → UInt8) → State κ) (count : ℕ)
    (received callbacks : List (Callback κ)) (hs : ∀ malloc, Invariant (s malloc))
    (hcount : ∀ malloc, (s malloc).messageBytesRead = count)
    (hreceived : ∀ malloc, (s malloc).received = received) :
    (∀ malloc, ReassembledAlong malloc (s malloc) callbacks) ↔
      Deliverable count (callbacks.map fun callback => callback.2.length) := by
  have hlt : count < maxMessageSize := by
    have h := (hs fun _ _ => 0).count_lt
    rwa [hcount] at h
  induction callbacks generalizing s count received with
  | nil =>
      refine ⟨fun _ => deliverable_nil hlt, ?_⟩
      intro _ malloc front hfront
      obtain rfl := List.prefix_nil.mp hfront
      exact (hs malloc).reassembled
  | cons callback callbacks ih =>
      have hreceived' : ∀ malloc, (onRead malloc (s malloc) callback).received =
          received ++ [callback] := by
        intro malloc
        rw [received_onRead, hreceived]
      simp only [reassembledAlong_cons, List.map_cons, (hs _).reassembled, true_and]
      by_cases hzero : count = 0
      · subst hzero
        have hnext := fun malloc => (hs malloc).onRead_aligned malloc callback (hcount malloc)
        have htail := ih _ _ _ (fun malloc => (hnext malloc).1) (fun malloc => (hnext malloc).2)
          hreceived' (Nat.mod_lt _ (by decide))
        exact htail.trans (wholeFrames_cons _ _).symm
      · rw [deliverable_cons hzero]
        by_cases hfits : count + callback.2.length < maxMessageSize
        · have hnext := fun malloc =>
            (hs malloc).onRead_short malloc callback (by rwa [hcount])
          have htail := ih _ _ _ (fun malloc => (hnext malloc).1)
            (fun malloc => by rw [(hnext malloc).2, hcount]) hreceived' hfits
          exact htail.trans (and_iff_right hfits).symm
        · obtain ⟨malloc, hbroken⟩ := exists_not_reassembled s callback count received hcount
            hreceived (by omega) hlt (by omega)
          constructor
          · intro h
            exact absurd (h malloc [] List.nil_prefix) hbroken
          · rintro ⟨hfits', _⟩
            exact absurd hfits' hfits

/-- Whatever memory `malloc` returns, the messages of each connection are at all times the
complete frames of its stream and no write leaves a read buffer, if and only if the callbacks
deliver whole frames. -/
theorem reassembly_iff_wholeFrames (callbacks : List (Callback κ)) :
    (∀ malloc front, front <+: callbacks → (run malloc front).Reassembled) ↔
      WholeFrames (callbacks.map fun callback => callback.2.length) := by
  have h := reassembledAlong_iff (fun _ => initial) 0 [] callbacks (fun _ => invariant_initial)
    (fun _ => rfl) (fun _ => rfl)
  rw [Deliverable, if_pos rfl] at h
  exact h

/-- A frame whose first byte arrives in a callback of its own. -/
def splitFrame : List (Callback Unit) :=
  [((), [1]), ((), List.replicate 4095 1)]

/-- On a fresh heap the first byte of the message is zero instead of the one received. -/
theorem splitFrame_not_reassembled : ¬ (run (fun _ _ => 0) splitFrame).Reassembled := by
  intro h
  have hfirst := (@invariant_initial Unit _).onRead_short (fun _ _ => 0) ((), [1]) (by decide)
  have hunits := onRead_completes (fun _ _ => 0) _ ((), List.replicate 4095 1)
    (hfirst.2 ▸ Nat.one_pos) hfirst.1.count_lt
    (by rw [hfirst.2, List.length_replicate]; rfl)
  have hmessages := (messagesOf_append () [_] hunits).symm.trans (h.1 ())
  have hnone := hfirst.1.reassembled.1 ()
  rw [frames_of_lt (by rw [received_onRead]; decide)] at hnone
  have hstream : streamOf () (run (fun _ _ => 0) splitFrame).received =
      (1 :: List.replicate 4095 1) ++ [] := by
    rw [splitFrame, run, List.foldl_cons, List.foldl_cons, List.foldl_nil, received_onRead,
      received_onRead, streamOf_append, streamOf_append, if_pos rfl, if_pos rfl, List.append_nil]
    generalize List.replicate 4095 (1 : UInt8) = rest
    rfl
  have hblock : (1 :: List.replicate 4095 (1 : UInt8)).length = maxMessageSize := by
    rw [List.length_cons, List.length_replicate]
    rfl
  rw [hnone, hstream, frames_block_append (by decide) hblock, frames_of_lt (by decide),
    List.nil_append, if_pos rfl, hfirst.2] at hmessages
  have hbyte := congrArg List.head? (List.singleton_inj.mp hmessages)
  rw [List.head?_append, head?_take_mallocBuffer _ _ (by decide)] at hbyte
  exact absurd hbyte (by decide)

end Dynpm.ServerRead
