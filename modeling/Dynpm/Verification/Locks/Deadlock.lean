import Dynpm.Model.LibraryLocks
import Dynpm.Verification.Server.Locks

/-! # The library does not come to a deadlock

All functions lock the mutexes in one order: `registration_mutex`, `server_connections_mutex`, the
mutex of a connection or of a vertex, and then the mutex of a message queue or of the work queue.
This holds even for `_server_on_error`, which releases a mutex that others hold. What can stop the
threads is a function that returns with a mutex locked, or code of the user that breaks the order.
-/

namespace Dynpm.LibraryLocks

open Library ServerLocks

/-- The order of the mutexes. -/
def rank : Mutex → ℕ
  | .registration => 0
  | .serverConnections => 1
  | .connection _ | .serverConnection _ | .vertex _ => 2
  | .messages _ | .serverMessages _ | .workQueue => 3

variable {held : Finset Mutex}

/-! ## The functions -/

theorem orderedSection_locked {m : Mutex} {ops : Ops} (h : ∀ m' ∈ held, rank m' < rank m)
    (hops : OrderedSection rank (insert m held) ops) : OrderedSection rank held (locked m ops) :=
  orderedSection_lock h hops

/-- A function that only locks one mutex. -/
theorem locksInOrder_locked (m : Mutex) : LocksInOrder rank ∅ (locked m []) :=
  (orderedSection_locked (by simp) orderedSection_nil).locksInOrder

theorem locksInOrder_queueThreadTake (waits : ℕ) :
    LocksInOrder rank ∅ (queueThreadTake waits) := by
  apply OrderedSection.locksInOrder
  apply orderedSection_locked (by simp)
  apply orderedSection_flatten
  intro ops hops
  rw [List.eq_of_mem_replicate hops]
  exact orderedSection_unlock_lock (by simp)

/-- The loop gives back the mutex of the connection unless a `return` leaves it. -/
theorem locksInOrder_serverOnReadLoop (c : ℕ) (malloc : ℕ → Bool) (sizes : List ℕ)
    (messageBytesRead k : ℕ) :
    LocksInOrder rank {.connection c} (serverOnReadLoop c malloc sizes messageBytesRead k) ↔
      BuffersFailFirst (fun i => malloc (i + k)) (fullMessages messageBytesRead sizes) := by
  have hunlock : LocksInOrder rank {Mutex.connection c} [.unlock (.connection c)] := by
    rw [locksInOrder_unlock, locksInOrder_nil, Finset.erase_singleton]
  have hlost : ({Mutex.connection c} : Finset Mutex) ≠ ∅ := Finset.singleton_ne_empty _
  induction sizes generalizing messageBytesRead k with
  | nil => exact iff_of_true hunlock (buffersFailFirst_zero _)
  | cons size sizes ih =>
      rw [serverOnReadLoop, fullMessages]
      by_cases hsize : size = 0
      · rw [if_pos hsize, if_pos hsize]
        exact iff_of_true hunlock (buffersFailFirst_zero _)
      rw [if_neg hsize, if_neg hsize]
      by_cases hbuffer : malloc k = false
      · rw [if_pos hbuffer]
        exact iff_of_true locksInOrder_exit (buffersFailFirst_of_false (by simpa using hbuffer) _)
      rw [if_neg hbuffer]
      by_cases hpart : messageBytesRead + size < maxMessageSize
      · rw [if_pos hpart, if_pos hpart]
        exact ih (messageBytesRead + size) k
      rw [if_neg hpart, if_neg hpart, buffersFailFirst_succ (by simpa using hbuffer)]
      by_cases hunit : malloc (k + 1) = false
      · rw [if_pos hunit, locksInOrder_nil]
        refine iff_of_false hlost ?_
        rintro ⟨h1, -, -⟩
        exact absurd h1 (by simp [Nat.add_comm 1 k, hunit])
      rw [if_neg hunit]
      by_cases hdata : malloc (k + 2) = false
      · rw [if_pos hdata, locksInOrder_nil]
        refine iff_of_false hlost ?_
        rintro ⟨-, h2, -⟩
        exact absurd h2 (by simp [Nat.add_comm 2 k, hdata])
      rw [if_neg hdata]
      have hrank : ∀ m' ∈ ({Mutex.connection c} : Finset Mutex), rank m' < rank .workQueue := by
        simp [rank]
      refine (locksInOrder_lock_unlock hrank).trans ((ih 0 (k + 3)).trans ?_)
      simp only [Bool.not_eq_false] at hunit hdata
      rw [Nat.add_comm 1 k, Nat.add_comm 2 k, hunit, hdata]
      simp only [Nat.add_assoc, Nat.add_comm 3 k, true_and]

theorem locksInOrder_serverOnRead_iff (c : ℕ) (malloc : ℕ → Bool) (sizes : List ℕ)
    (messageBytesRead : ℕ) :
    LocksInOrder rank ∅ (LibraryLocks.serverOnRead c malloc sizes messageBytesRead) ↔
      BuffersFailFirst malloc (fullMessages messageBytesRead sizes) := by
  rw [LibraryLocks.serverOnRead, locksInOrder_lock, insert_empty_eq,
    locksInOrder_serverOnReadLoop]
  exact and_iff_right (by simp)

theorem orderedSection_disconnectFromServer (assertion : Bool)
    (h : ∀ m' ∈ held, rank m' < rank .serverConnections) :
    OrderedSection rank held (disconnectFromServer assertion) := by
  cases assertion with
  | true => exact orderedSection_locked h orderedSection_nil
  | false => exact orderedSection_lock_exit h

/-- The mutex of the connection, which is released twice, is not one that the callback holds. -/
theorem locksInOrder_serverOnError (c : ℕ) (what : BitVec 16) (children : List Bool) :
    LocksInOrder rank ∅ (LibraryLocks.serverOnError c what children) := by
  have hunlock : OrderedSection rank (insert .registration ∅)
      [.unlock (Mutex.connection c)] := orderedSection_unlock (by simp)
  rw [LibraryLocks.serverOnError]
  by_cases heof : what &&& bevEventEof = 0
  · rw [if_neg (not_not.mpr heof)]
    exact locksInOrder_locked .registration
  rw [if_pos heof]
  by_cases hreading : what &&& bevEventReading = 0
  · rw [if_neg (not_not.mpr hreading)]
    exact locksInOrder_locked .registration
  rw [if_pos hreading]
  apply OrderedSection.locksInOrder
  apply orderedSection_locked (by simp)
  refine OrderedSection.append (OrderedSection.append hunlock ?_) hunlock
  apply orderedSection_flatten
  intro ops hops
  obtain ⟨assertion, _, rfl⟩ := List.mem_map.mp hops
  exact orderedSection_disconnectFromServer assertion (by simp [rank])

theorem locksInOrder_serverToClientSendProgress (c : Option ℕ) :
    LocksInOrder rank ∅ (ofServer (ServerLocks.serverToClientSendProgress c)) := by
  cases c with
  | none => exact locksInOrder_locked .registration
  | some c =>
      have hsection : OrderedSection rank ∅ (locked .registration (locked (.connection c) [])) :=
        orderedSection_locked (by simp)
          (orderedSection_locked (by simp [rank]) orderedSection_nil)
      exact hsection.locksInOrder

theorem locksInOrder_clientConnectionEventHandler (c : ℕ) (accepted : Bool) :
    LocksInOrder rank ∅ (clientConnectionEventHandler c accepted) := by
  cases accepted with
  | true =>
      exact (orderedSection_locked (by simp)
        (orderedSection_locked (by simp [rank]) orderedSection_nil)).locksInOrder
  | false => exact (orderedSection_lock_exit (by simp)).locksInOrder

/-- Only a message that is sent gives the mutex of the queue back. -/
theorem locksInOrder_sendMessageToClientConnection_iff (c : Option ℕ) (call : Send.Call) :
    LocksInOrder rank ∅ (sendMessageToClientConnection c call) ↔
      ∀ c' ∈ c, ∃ frame, Send.clientCase call.header call.msg call.buffer = .serialized frame := by
  cases c with
  | none => exact iff_of_true (locksInOrder_nil.mpr rfl) (by simp)
  | some c =>
      rw [sendMessageToClientConnection]
      cases hcase : Send.clientCase call.header call.msg call.buffer with
      | refused => simp
      | unknown => simp
      | serialized result =>
          cases result with
          | ok frame => exact iff_of_true (locksInOrder_locked (.messages c)) (by simp)
          | error fault =>
              exact iff_of_true (orderedSection_lock_exit (by simp)).locksInOrder (by simp)

theorem locksInOrder_clientToServerSendProgress (k : Option ℕ) :
    LocksInOrder rank ∅ (clientToServerSendProgress k) := by
  cases k with
  | none => exact locksInOrder_locked .serverConnections
  | some k =>
      exact (orderedSection_locked (by simp)
        (orderedSection_locked (by simp [rank]) orderedSection_nil)).locksInOrder

theorem locksInOrder_clientOnError (k : ℕ) (what : BitVec 16) (assertion : Bool) :
    LocksInOrder rank ∅ (clientOnError k what assertion) := by
  rw [clientOnError]
  by_cases heof : what &&& bevEventEof = 0
  · rw [if_neg (not_not.mpr heof)]
    by_cases hconnected : what &&& bevEventConnected = 0
    · rw [if_neg (not_not.mpr hconnected)]
      exact locksInOrder_nil.mpr rfl
    · rw [if_pos hconnected]
      exact locksInOrder_locked (.serverConnection k)
  · rw [if_pos heof]
    exact (orderedSection_disconnectFromServer assertion (by simp)).locksInOrder

/-- The start of a connection gets to one of the exits that unlock the table. -/
def ConnectStart.Unlocks : ConnectStart → Prop
  | .notInitialized | .noRoom => True
  | .entry _ outcome => outcome.keepsMutex = false

theorem locksInOrder_connectToServer_iff (start : ConnectStart) :
    LocksInOrder rank ∅ (connectToServer start) ↔ start.Unlocks := by
  have hregister : ∀ k, LocksInOrder rank ∅ (locked .serverConnections
      (locked (.serverConnection k) [] ++ locked (.serverMessages k) [])) := by
    intro k
    apply OrderedSection.locksInOrder
    apply orderedSection_locked (by simp)
    exact (orderedSection_locked (by simp [rank]) orderedSection_nil).append
      (orderedSection_locked (by simp [rank]) orderedSection_nil)
  cases start with
  | notInitialized => exact iff_of_true (locksInOrder_nil.mpr rfl) trivial
  | noRoom => exact iff_of_true (locksInOrder_locked .serverConnections) trivial
  | entry k outcome =>
      cases outcome with
      | eventBaseFails | dnsBaseFails | bufferEventFails =>
          simp [connectToServer, ConnectStart.Unlocks, Client.ConnectOutcome.keepsMutex]
      | threadCreateFails | threadNameFails =>
          exact iff_of_true (locksInOrder_locked .serverConnections) rfl
      | registerFails | succeeds => exact iff_of_true (hregister k) rfl

theorem orderedSection_sendBufferToServer (k : Option ℕ) :
    OrderedSection rank ∅ (sendBufferToServer k) := by
  cases k with
  | none => exact orderedSection_locked (by simp) orderedSection_nil
  | some k =>
      exact (orderedSection_locked (by simp) orderedSection_nil).append
        (orderedSection_locked (by simp) orderedSection_nil)

theorem locksInOrder_sendMessageToServer (k : Option ℕ) (app : Int32) (call : Send.Call) :
    LocksInOrder rank ∅ (sendMessageToServer k app call) := by
  cases k with
  | none => exact locksInOrder_locked .serverConnections
  | some k =>
      have hsend : ∀ result, OrderedSection rank ∅ (internalSendMessageToServer k result) := by
        intro result
        match result with
        | none => exact orderedSection_locked (by simp) orderedSection_nil
        | some (.ok _) => exact orderedSection_locked (by simp) orderedSection_nil
        | some (.error _) => exact orderedSection_lock_exit (by simp)
      exact ((orderedSection_locked (by simp) orderedSection_nil).append (hsend _)).locksInOrder

theorem locksInOrder_tbonWaitTimeout (v : ℕ) (skips met : Bool) :
    LocksInOrder rank ∅ (tbonWaitTimeout v skips met) := by
  cases skips with
  | true => exact locksInOrder_nil.mpr rfl
  | false =>
      cases met with
      | true => exact locksInOrder_locked (.vertex v)
      | false =>
          exact (orderedSection_locked (by simp)
            (orderedSection_unlock_lock (by simp))).locksInOrder

theorem orderedSection_sendMessageToTbonChildren (connections : List (Option ℕ)) :
    OrderedSection rank ∅ (sendMessageToTbonChildren connections) := by
  induction connections with
  | nil => exact orderedSection_nil
  | cons k connections ih =>
      cases k with
      | none => exact orderedSection_sendBufferToServer none
      | some k => exact (orderedSection_sendBufferToServer (some k)).append ih

/-! ## The server callbacks alone -/

/-- The operations on the mutexes of the server. -/
def onServer : MutexOp Mutex → Bool
  | .lock (.registration) | .lock (.connection _) | .unlock (.registration)
  | .unlock (.connection _) | .exit => true
  | _ => false

/-- Apart from the work queue, `_server_on_read` does what it does to the mutexes of the server. -/
theorem filter_serverOnReadLoop (c : ℕ) (malloc : ℕ → Bool) (sizes : List ℕ)
    (messageBytesRead k : ℕ) :
    (serverOnReadLoop c malloc sizes messageBytesRead k).filter onServer =
      ofServer (ServerLocks.serverOnReadLoop c malloc sizes messageBytesRead k) := by
  induction sizes generalizing messageBytesRead k with
  | nil => rfl
  | cons size sizes ih =>
      rw [serverOnReadLoop, ServerLocks.serverOnReadLoop]
      split
      · rfl
      split
      · rfl
      split
      · exact ih _ k
      split
      · rfl
      split
      · rfl
      · rw [List.filter_append, ih 0 (k + 3)]
        rfl

/-- The same for `_server_on_error` and the connections that it closes. -/
theorem filter_serverOnError (c : ℕ) (what : BitVec 16) (children : List Bool)
    (h : ∀ assertion ∈ children, assertion = true) :
    (serverOnError c what children).filter onServer =
      ofServer (ServerLocks.serverOnError c what) := by
  have hchildren : ((children.map disconnectFromServer).flatten).filter onServer = [] := by
    rw [List.filter_eq_nil_iff]
    intro op hop
    obtain ⟨ops, hops, hmem⟩ := List.mem_flatten.mp hop
    obtain ⟨assertion, hassertion, rfl⟩ := List.mem_map.mp hops
    rw [h assertion hassertion] at hmem
    rcases List.mem_cons.mp hmem with rfl | hmem
    · simp [onServer]
    · rw [List.mem_singleton.mp hmem]
      simp [onServer]
  rw [serverOnError, ServerLocks.serverOnError]
  split
  · split
    · simp only [locked, List.cons_append, List.filter_cons, List.filter_append, hchildren]
      rfl
    · rfl
  · rfl

/-! ## All calls -/

/-- The call gives back what it locks: `_server_on_read` finds memory for each message that it has
read, a message to a client is of a type that is sent, and a connection to a server is not given
up before its thread. Code of the user keeps to the order. -/
def Call.Orderly : Call → Prop
  | .serverOnRead _ malloc sizes messageBytesRead =>
      BuffersFailFirst malloc (fullMessages messageBytesRead sizes)
  | .sendMessageToClientConnection c call =>
      ∀ c' ∈ c, ∃ frame, Send.clientCase call.header call.msg call.buffer = .serialized frame
  | .connectToServer start => start.Unlocks
  | .clientConnectionsLocked ops => LocksInOrder rank ∅ (locked .registration ops)
  | .clientOnRead k totalBytes handler =>
      totalBytes = maxMessageSize → LocksInOrder rank ∅ (locked (.serverConnection k) handler)
  | .user ops => LocksInOrder rank ∅ ops
  | _ => True

theorem locksInOrder_iff_orderly (call : Call) :
    LocksInOrder rank ∅ call.locks ↔ call.Orderly := by
  cases call with
  | serverOnRead c malloc sizes messageBytesRead =>
      exact locksInOrder_serverOnRead_iff c malloc sizes messageBytesRead
  | sendMessageToClientConnection c call =>
      exact locksInOrder_sendMessageToClientConnection_iff c call
  | connectToServer start => exact locksInOrder_connectToServer_iff start
  | clientConnectionsLocked ops => exact Iff.rfl
  | user ops => exact Iff.rfl
  | clientOnRead k totalBytes handler =>
      rw [Call.locks, clientOnRead, Call.Orderly]
      by_cases htotal : totalBytes = maxMessageSize
      · rw [if_neg (not_not.mpr htotal)]
        exact ⟨fun h _ => h, fun h => h htotal⟩
      · rw [if_pos htotal]
        exact iff_of_true locksInOrder_exit (fun h => absurd h htotal)
  | serverOnWrite c =>
      cases c with
      | none => exact iff_of_true locksInOrder_exit trivial
      | some c => exact iff_of_true (locksInOrder_locked (.connection c)) trivial
  | clientInit initialized =>
      cases initialized with
      | true => exact iff_of_true (locksInOrder_nil.mpr rfl) trivial
      | false => exact iff_of_true (locksInOrder_locked .serverConnections) trivial
  | queueThreadTake waits => exact iff_of_true (locksInOrder_queueThreadTake waits) trivial
  | serverOnError c what children =>
      exact iff_of_true (locksInOrder_serverOnError c what children) trivial
  | serverToClientSendProgress c =>
      exact iff_of_true (locksInOrder_serverToClientSendProgress c) trivial
  | clientConnectionEventHandler c accepted =>
      exact iff_of_true (locksInOrder_clientConnectionEventHandler c accepted) trivial
  | clientToServerSendProgress k =>
      exact iff_of_true (locksInOrder_clientToServerSendProgress k) trivial
  | clientOnError k what assertion =>
      exact iff_of_true (locksInOrder_clientOnError k what assertion) trivial
  | disconnectFromServer assertion =>
      exact iff_of_true
        (orderedSection_disconnectFromServer assertion (by simp)).locksInOrder trivial
  | sendBufferToServer k =>
      exact iff_of_true (orderedSection_sendBufferToServer k).locksInOrder trivial
  | sendMessageToServer k app call =>
      exact iff_of_true (locksInOrder_sendMessageToServer k app call) trivial
  | tbonWaitTimeout v skips met =>
      exact iff_of_true (locksInOrder_tbonWaitTimeout v skips met) trivial
  | sendMessageToTbonChildren connections =>
      exact iff_of_true (orderedSection_sendMessageToTbonChildren connections).locksInOrder trivial
  | workQueueAdd | workQueueFinalize =>
      exact iff_of_true (locksInOrder_locked .workQueue) trivial
  | deregisterClientConnection | clientConnectionSetup =>
      exact iff_of_true (locksInOrder_locked .registration) trivial
  | registerClientConnection c => exact iff_of_true (locksInOrder_locked (.connection c)) trivial
  | sendBufferToClientConnection c =>
      exact iff_of_true (locksInOrder_locked (.messages c)) trivial
  | clientOnWrite k => exact iff_of_true (locksInOrder_locked (.serverConnection k)) trivial
  | initializeTbonVertex v => exact iff_of_true (locksInOrder_locked (.vertex v)) trivial

/-- The calls that a run of threads starts are orderly. -/
def StartsOrderly (_ : Threads ℕ Mutex) : ThreadAction ℕ Call → Prop
  | .call _ call => call.Orderly
  | .next _ => True

/-- Threads that make orderly calls of the functions of the library, in any interleaving, never
come to a deadlock: whatever state they are in, they can go on until every call has returned and
no mutex is locked, unless a call ends the process. This is about the order of the locks alone: a
mutex stays one after its connection has been freed. -/
theorem library_deadlock_free (actions : List (ThreadAction ℕ Call)) (s : Threads ℕ Mutex)
    (horderly : system.Respecting StartsOrderly Threads.idle actions)
    (hrun : system.run Threads.idle actions = some s) :
    ∃ (threads : List ℕ) (t : Threads ℕ Mutex),
      system.run s (threads.map .next) = some t ∧ (t.exited = true ∨ t.Quiet) := by
  have hinOrder : system.Respecting (CallsInOrder rank Call.locks) Threads.idle actions := by
    refine System.Respecting.imp (I := fun _ => True) ?_ trivial horderly
    intro s action t _ hstart _
    refine ⟨?_, trivial⟩
    cases action with
    | call i call => exact (locksInOrder_iff_orderly call).mpr hstart
    | next i => trivial
  obtain ⟨active, hordered⟩ := ordered_of_callsInOrder hinOrder hrun
  exact exists_run_quiet hordered

/-- A client goes away while a worker registers another one, and the timer of that one waits for the
registration mutex that the callback of the error holds. -/
def sampleCalls : List (ThreadAction ℕ Call) :=
  [.call 0 (.registerClientConnection 1), .next 0,
    .call 1 (.serverOnError 0 (bevEventEof ||| bevEventReading) [true]), .next 1,
    .call 2 (.serverToClientSendProgress (some 1)), .next 1]

theorem sampleCalls_deadlock_free :
    ∃ s, system.run Threads.idle sampleCalls = some s ∧
      ∃ (threads : List ℕ) (t : Threads ℕ Mutex),
        system.run s (threads.map .next) = some t ∧ (t.exited = true ∨ t.Quiet) := by
  have hrun : (system.run Threads.idle sampleCalls).isSome = true := by decide
  obtain ⟨s, hs⟩ := Option.isSome_iff_exists.mp hrun
  refine ⟨s, hs, library_deadlock_free sampleCalls s ?_ hs⟩
  apply System.respecting_of_forall
  intro action haction state
  simp only [sampleCalls, List.mem_cons, List.not_mem_nil, or_false] at haction
  rcases haction with rfl | rfl | rfl | rfl | rfl | rfl
  all_goals trivial

/-- A handler of the user that sends a message to a server, called while another thread is about
to finish the connection. -/
def sendingHandler : List (ThreadAction ℕ Call) :=
  [.call 0 (.connectToServer (.entry 0 .succeeds)), .next 0,
    .call 1 (.clientOnRead 0 maxMessageSize (sendBufferToServer (some 0))), .next 1]

/-- The handler has the mutex of the connection and waits for that of the table, and the other
thread has that of the table and waits for that of the connection. -/
theorem sendingHandler_deadlock :
    ∃ s, system.run Threads.idle sendingHandler = some s ∧ s.exited = false ∧
      (∀ i, s.next i = none) ∧ s.code 0 ≠ [] ∧ s.code 1 ≠ [] := by
  refine ⟨_, rfl, rfl, ?_, by decide, by decide⟩
  intro i
  match i with
  | 0 => rfl
  | 1 => rfl
  | i + 2 => rfl

end Dynpm.LibraryLocks
