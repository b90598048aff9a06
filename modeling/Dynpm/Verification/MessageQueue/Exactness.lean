import Dynpm.Model.MessageQueue

/-! # Lost messages of the outgoing queue

A sender looks for the tail and links behind it in two steps, and a drainer may remove the
tail in between because it holds a different mutex. The queue is exact throughout a run if
and only if this never happens.
-/

namespace Dynpm.MessageQueue

open Library

variable {β : Type}

/-! ## The invariant -/

/-- What a sender knows between its walk and its link: the new node is not queued yet, and
the tail it found is the last queued node unless the queue has been drained since. -/
def WalkInv (s : State β) (cells : List (ℕ × β)) (buffer : β) (newMessage : ℕ)
    (tail : Option ℕ) : Prop :=
  s.heap[newMessage]? = some ⟨buffer, none⟩ ∧ (∀ cell ∈ cells, cell.1 ≠ newMessage) ∧
    match tail with
    | none => cells = []
    | some a => a < newMessage ∧ (cells ≠ [] → cells.getLast?.map Prod.fst = some a)

/-- The cells of the queue whose buffers have not been handed over. -/
def unhanded (headHanded : Bool) (cells : List (ℕ × β)) : List (ℕ × β) :=
  if headHanded then cells.tail else cells

theorem unhanded_append (headHanded : Bool) {cells : List (ℕ × β)} (hne : cells ≠ [])
    (cell : ℕ × β) :
    unhanded headHanded (cells ++ [cell]) = unhanded headHanded cells ++ [cell] := by
  cases headHanded <;> simp [unhanded, List.tail_append_of_ne_nil hne]

/-- The nodes reachable from `messages_head` are `cells`, and together with the buffers handed
over they are exactly the buffers enqueued. -/
structure Invariant (s : State β) (cells : List (ℕ × β)) : Prop where
  ascending : s.heap.Ascending
  chain : s.heap.Chain s.messagesHead cells
  buffers : s.handed ++ (unhanded s.headHanded cells).map Prod.snd = s.enqueued
  handed_ne : s.headHanded = true → cells ≠ []
  sender_mutex : ∀ t, s.sender t ≠ .idle → s.messagesMutex = some t
  drainer_mutex : ∀ d, s.drainer d ≠ .idle → s.connectionMutex = some d
  walked : ∀ t buffer newMessage tail, s.sender t = .walked buffer newMessage tail →
    WalkInv s cells buffer newMessage tail

theorem invariant_initial : Invariant (initial : State β) [] where
  ascending := by simp [Heap.Ascending, initial]
  chain := .nil
  buffers := rfl
  handed_ne := by simp [State.headHanded, initial]
  sender_mutex := by simp [initial]
  drainer_mutex := by simp [initial]
  walked := by simp [initial]

namespace Invariant

variable {s : State β} {cells : List (ℕ × β)}

theorem queued_eq (h : Invariant s cells) :
    s.queued = (unhanded s.headHanded cells).map Prod.snd := by
  have hvalues := h.chain.values_eq (h.chain.length_le h.ascending)
  simp only [State.queued, hvalues, unhanded]
  split <;> simp [List.map_tail]

theorem exact_state (h : Invariant s cells) : s.Exact := by
  rw [State.Exact, h.queued_eq]
  exact h.buffers

/-- Only one sender is inside its critical section. -/
theorem sender_unique (h : Invariant s cells) {t u : ℕ} (ht : s.sender t ≠ .idle)
    (hu : s.sender u ≠ .idle) : t = u := by
  have := (h.sender_mutex t ht).symm.trans (h.sender_mutex u hu)
  exact Option.some.inj this

/-- Whether the head is handed over is decided by the drainer inside its critical section. -/
theorem headHanded_eq (h : Invariant s cells) {d : ℕ} (hd : s.drainer d ≠ .idle) :
    s.headHanded = decide (s.drainer d = .handedOver) := by
  simp [State.headHanded, h.drainer_mutex d hd]

end Invariant

/-! ## Steps of a sender -/

/-- After the owner `t` of `messages_mutex` has moved, every other sender is still idle. -/
theorem sender_mutex_update {s : State β} {cells : List (ℕ × β)} (h : Invariant s cells) {t : ℕ}
    (ht : s.sender t ≠ .idle) (pc : SenderPc β) :
    ∀ u, Function.update s.sender t pc u ≠ .idle → s.messagesMutex = some u := by
  intro u hu
  by_cases hut : u = t
  · subst u
    exact h.sender_mutex t ht
  · rw [Function.update_of_ne hut] at hu
    exact h.sender_mutex u hu

theorem Invariant.sendLock {s : State β} {cells : List (ℕ × β)} (h : Invariant s cells)
    {t : ℕ} (hfree : s.messagesMutex = none) (buffer : β) :
    Invariant (State.setSender { s with messagesMutex := some t } t (.locked buffer)) cells := by
  have hidle : ∀ u, s.sender u = .idle := by
    intro u
    by_contra hu
    simp [h.sender_mutex u hu] at hfree
  refine ⟨h.ascending, h.chain, h.buffers, h.handed_ne, ?_, h.drainer_mutex, ?_⟩
  · intro u hu
    by_cases hut : u = t
    · rw [hut]
      rfl
    · simp [State.setSender, hut, hidle u] at hu
  · intro u b new tail hu
    by_cases hut : u = t
    · simp [State.setSender, hut] at hu
    · simp [State.setSender, hut, hidle u] at hu

theorem Invariant.sendWalk {s : State β} {cells : List (ℕ × β)} (h : Invariant s cells)
    {t : ℕ} {buffer : β} (ht : s.sender t = .locked buffer) :
    Invariant (enqueueWalk s t buffer) cells := by
  have hchain := h.chain.alloc buffer
  have hlen := hchain.length_le (h.ascending.alloc buffer)
  refine ⟨h.ascending.alloc buffer, hchain, h.buffers, h.handed_ne,
    sender_mutex_update h (by simp [ht]) _, h.drainer_mutex, ?_⟩
  intro u b new tail hu
  by_cases hut : u = t
  · obtain ⟨rfl, rfl, rfl⟩ : buffer = b ∧ s.heap.length = new ∧
        s.messagesHead.map ((s.heap.alloc buffer).lastCell (s.heap.alloc buffer).length) =
          tail := by
      simpa [enqueueWalk, State.setSender, hut] using hu
    refine ⟨by simp [enqueueWalk, State.setSender, Heap.alloc], ?_, ?_⟩
    · intro cell hcell
      exact (h.chain.lt_length cell hcell).ne
    · cases hhead : s.messagesHead with
      | none =>
          rw [hhead] at hchain
          exact hchain.nil_of_none
      | some a =>
          rw [hhead] at hchain
          have hlast := hchain.lastCell_eq hlen
          refine ⟨?_, fun _ => hlast⟩
          obtain ⟨cell, hmem, heq⟩ := Option.map_eq_some_iff.mp hlast
          rw [← heq]
          exact h.chain.lt_length cell (List.mem_of_getLast? hmem)
  · have hu' : s.sender u = .walked b new tail := by
      simpa [enqueueWalk, State.setSender, hut] using hu
    exact absurd (h.sender_unique (by simp [hu']) (by simp [ht])) hut

/-- A link appends the new node, provided that the tail it was to follow is still queued. -/
theorem Invariant.sendLink {s : State β} {cells : List (ℕ × β)} (h : Invariant s cells)
    {t : ℕ} {buffer : β} {newMessage : ℕ} {tail : Option ℕ}
    (ht : s.sender t = .walked buffer newMessage tail)
    (hqueued : tail ≠ none → s.messagesHead ≠ none) :
    Invariant (enqueueLink s t buffer newMessage tail) (cells ++ [(newMessage, buffer)]) := by
  obtain ⟨hnew, hfresh, htail⟩ := h.walked t _ _ _ ht
  have hothers : ∀ u b new tail', Function.update s.sender t .linked u = .walked b new tail' →
      WalkInv (enqueueLink s t buffer newMessage tail) (cells ++ [(newMessage, buffer)])
        b new tail' := by
    intro u b new tail' hu
    by_cases hut : u = t
    · simp [hut] at hu
    · rw [Function.update_of_ne hut] at hu
      exact absurd (h.sender_unique (by simp [hu]) (by simp [ht])) hut
  cases tail with
  | none =>
      obtain rfl : cells = [] := htail
      have hhanded : s.headHanded = false := by
        by_contra hne
        exact h.handed_ne (by simpa using hne) rfl
      refine ⟨h.ascending, .cons hnew .nil, ?_, by simp, sender_mutex_update h (by simp [ht]) _,
        h.drainer_mutex, hothers⟩
      have hbuffers := h.buffers
      change s.handed ++ (unhanded s.headHanded [(newMessage, buffer)]).map Prod.snd =
        s.enqueued ++ [buffer]
      rw [← hbuffers, hhanded]
      simp [unhanded]
  | some a =>
      have hne : cells ≠ [] := by
        rintro rfl
        have hchain := h.chain
        cases hhead : s.messagesHead with
        | none => exact hqueued (by simp) hhead
        | some b =>
            rw [hhead] at hchain
            cases hchain
      refine ⟨h.ascending.setNext htail.1, h.chain.link h.ascending (htail.2 hne) hnew hfresh, ?_,
        by simp, sender_mutex_update h (by simp [ht]) _, h.drainer_mutex, hothers⟩
      change s.handed ++ (unhanded s.headHanded (cells ++ [(newMessage, buffer)])).map Prod.snd =
        s.enqueued ++ [buffer]
      rw [← h.buffers, unhanded_append _ hne]
      simp

theorem Invariant.sendUnlock {s : State β} {cells : List (ℕ × β)} (h : Invariant s cells)
    {t : ℕ} (ht : s.sender t = .linked) :
    Invariant (State.setSender { s with messagesMutex := none } t .idle) cells := by
  have hidle : ∀ u, u ≠ t → s.sender u = .idle := by
    intro u hut
    by_contra hu
    exact hut (h.sender_unique hu (by simp [ht]))
  refine ⟨h.ascending, h.chain, h.buffers, h.handed_ne, ?_, h.drainer_mutex, ?_⟩
  · intro u hu
    by_cases hut : u = t <;> simp [State.setSender, hut, hidle u] at hu
  · intro u b new tail hu
    by_cases hut : u = t <;> simp [State.setSender, hut, hidle u] at hu

/-! ## Steps of a drainer -/

theorem drainer_mutex_update {s : State β} {cells : List (ℕ × β)} (h : Invariant s cells) {d : ℕ}
    (hd : s.drainer d ≠ .idle) (pc : DrainerPc) :
    ∀ e, Function.update s.drainer d pc e ≠ .idle → s.connectionMutex = some e := by
  intro e he
  by_cases hed : e = d
  · subst e
    exact h.drainer_mutex d hd
  · rw [Function.update_of_ne hed] at he
    exact h.drainer_mutex e he

/-- The drainer that holds the mutex decides, also after it has moved. -/
theorem headHanded_setDrainer {s : State β} {cells : List (ℕ × β)} (h : Invariant s cells) {d : ℕ}
    (hd : s.drainer d ≠ .idle) (pc : DrainerPc) :
    (s.setDrainer d pc).headHanded = decide (pc = .handedOver) := by
  simp [State.headHanded, State.setDrainer, h.drainer_mutex d hd]

theorem Invariant.drainLock {s : State β} {cells : List (ℕ × β)} (h : Invariant s cells)
    {d : ℕ} (hfree : s.connectionMutex = none) :
    Invariant (State.setDrainer { s with connectionMutex := some d } d .locked) cells := by
  have hidle : ∀ e, s.drainer e = .idle := by
    intro e
    by_contra he
    simp [h.drainer_mutex e he] at hfree
  have hbefore : s.headHanded = false := by simp [State.headHanded, hfree]
  have hafter : (State.setDrainer { s with connectionMutex := some d } d .locked).headHanded =
      false := by simp [State.headHanded, State.setDrainer]
  refine ⟨h.ascending, h.chain, ?_, by simp [hafter], h.sender_mutex, ?_, h.walked⟩
  · rw [hafter, ← hbefore]
    exact h.buffers
  · intro e he
    by_cases hed : e = d
    · rw [hed]
      rfl
    · simp [State.setDrainer, hed, hidle e] at he

theorem Invariant.drainHandOver {s : State β} {cells : List (ℕ × β)} (h : Invariant s cells)
    {d : ℕ} (hd : s.drainer d = .locked) : Invariant (handOver s d) cells := by
  have hbusy : s.drainer d ≠ .idle := by simp [hd]
  have hbefore : s.headHanded = false := by simp [h.headHanded_eq hbusy, hd]
  have hchain := h.chain
  have hbuffers := h.buffers
  unfold handOver
  cases hhead : s.messagesHead with
  | none =>
      rw [hhead] at hchain
      obtain rfl := hchain.nil_of_none
      have hafter := headHanded_setDrainer h hbusy .drained
      refine ⟨h.ascending, h.chain, ?_, by simp [hafter], h.sender_mutex,
        drainer_mutex_update h hbusy _, h.walked⟩
      change s.handed ++ (unhanded (s.setDrainer d .drained).headHanded []).map Prod.snd =
        s.enqueued
      rw [hafter, ← hbuffers, hbefore]
      rfl
  | some a =>
      rw [hhead] at hchain
      cases hchain with
      | @cons _ value next rest hcell hrest =>
          have hafter := headHanded_setDrainer h hbusy .handedOver
          simp only [Option.bind_some, hcell]
          refine ⟨h.ascending, .cons hcell hrest, ?_, by simp, h.sender_mutex,
            drainer_mutex_update h hbusy _, h.walked⟩
          change (s.handed ++ [value]) ++ (unhanded (s.setDrainer d .handedOver).headHanded
            ((a, value) :: rest)).map Prod.snd = s.enqueued
          rw [hafter, ← hbuffers, hbefore]
          simp [unhanded]

theorem Invariant.drainAdvance {s : State β} {cells : List (ℕ × β)} (h : Invariant s cells)
    {d : ℕ} (hd : s.drainer d = .handedOver) : Invariant (advance s d) cells.tail := by
  have hbusy : s.drainer d ≠ .idle := by simp [hd]
  have hbefore : s.headHanded = true := by simp [h.headHanded_eq hbusy, hd]
  have hafter : (advance s d).headHanded = false := headHanded_setDrainer h hbusy .drained
  have hbuffers := h.buffers
  have hwalked := h.walked
  have hne := h.handed_ne hbefore
  cases hhead : s.messagesHead with
  | none =>
      have hchain := h.chain
      rw [hhead] at hchain
      exact absurd hchain.nil_of_none hne
  | some a =>
      have hchain := h.chain
      rw [hhead] at hchain
      cases hchain with
      | @cons _ value next rest hcell hrest =>
          refine ⟨h.ascending, ?_, ?_, by simp [hafter], h.sender_mutex,
            drainer_mutex_update h hbusy _, ?_⟩
          · have hnext : (advance s d).messagesHead = next := by
              simp [advance, State.setDrainer, hhead, hcell]
            rw [hnext]
            exact hrest
          · rw [hafter]
            rw [hbefore] at hbuffers
            exact hbuffers
          · intro t buffer new tail ht
            obtain ⟨hnew, hfresh, htail⟩ := hwalked t buffer new tail ht
            refine ⟨hnew, fun cell hmem => hfresh cell (List.mem_cons_of_mem _ hmem), ?_⟩
            cases tail with
            | none => simp at htail
            | some b =>
                refine ⟨htail.1, ?_⟩
                intro hrestne
                rw [← htail.2 (by simp)]
                exact congrArg _ (List.getLast?_cons_of_ne_nil hrestne).symm

theorem Invariant.drainUnlock {s : State β} {cells : List (ℕ × β)} (h : Invariant s cells)
    {d : ℕ} (hd : s.drainer d = .drained) :
    Invariant (State.setDrainer { s with connectionMutex := none } d .idle) cells := by
  have hbefore : s.headHanded = false := by
    simp [h.headHanded_eq (d := d) (by simp [hd]), hd]
  have hafter : (State.setDrainer { s with connectionMutex := none } d .idle).headHanded =
      false := by simp [State.headHanded, State.setDrainer]
  refine ⟨h.ascending, h.chain, ?_, by simp [hafter], h.sender_mutex, ?_, h.walked⟩
  · rw [hafter, ← hbefore]
    exact h.buffers
  · intro e he
    by_cases hed : e = d
    · simp [State.setDrainer, hed] at he
    · have he' : s.drainer e ≠ .idle := by simpa [State.setDrainer, hed] using he
      have := (h.drainer_mutex e he').symm.trans (h.drainer_mutex d (by simp [hd]))
      exact absurd (Option.some.inj this) hed

/-! ## Runs -/

/-- The link of a sender that found a tail happens while the queue is not empty, so that no
drainer has removed the tail since the walk. -/
def TailStillQueued (s : State β) : Action β → Prop
  | .sendLink t =>
      match s.sender t with
      | .walked _ _ (some _) => s.messagesHead ≠ none
      | _ => True
  | _ => True

theorem Invariant.step {s t : State β} {cells : List (ℕ × β)} {a : Action β}
    (h : Invariant s cells) (ha : TailStillQueued s a) (ht : step s a = some t) :
    ∃ cells, Invariant t cells := by
  cases a with
  | sendLock u buffer =>
      cases hu : s.sender u <;> cases hm : s.messagesMutex <;>
        simp [MessageQueue.step, hu, hm] at ht
      obtain rfl := ht
      exact ⟨_, h.sendLock hm buffer⟩
  | sendWalk u =>
      cases hu : s.sender u <;> simp [MessageQueue.step, hu] at ht
      obtain rfl := ht
      exact ⟨_, h.sendWalk hu⟩
  | sendLink u =>
      cases hu : s.sender u with
      | walked buffer new tail =>
          obtain rfl : enqueueLink s u buffer new tail = t := by
            simpa [MessageQueue.step, hu] using ht
          refine ⟨_, h.sendLink hu ?_⟩
          intro htail
          obtain ⟨a, rfl⟩ := Option.ne_none_iff_exists'.mp htail
          simpa [TailStillQueued, hu] using ha
      | _ => simp [MessageQueue.step, hu] at ht
  | sendUnlock u =>
      cases hu : s.sender u <;> simp [MessageQueue.step, hu] at ht
      obtain rfl := ht
      exact ⟨_, h.sendUnlock hu⟩
  | drainLock d =>
      cases hd : s.drainer d <;> cases hm : s.connectionMutex <;>
        simp [MessageQueue.step, hd, hm] at ht
      obtain rfl := ht
      exact ⟨_, h.drainLock hm⟩
  | drainHandOver d =>
      cases hd : s.drainer d <;> simp [MessageQueue.step, hd] at ht
      obtain rfl := ht
      exact ⟨_, h.drainHandOver hd⟩
  | drainAdvance d =>
      cases hd : s.drainer d <;> simp [MessageQueue.step, hd] at ht
      obtain rfl := ht
      exact ⟨_, h.drainAdvance hd⟩
  | drainUnlock d =>
      cases hd : s.drainer d <;> simp [MessageQueue.step, hd] at ht
      obtain rfl := ht
      exact ⟨_, h.drainUnlock hd⟩

/-- A link behind a node that is no longer queued counts as enqueued but is never reachable. -/
theorem Invariant.not_exact_of_lost {s t : State β} {cells : List (ℕ × β)} {a : Action β}
    (h : Invariant s cells) (ha : ¬ TailStillQueued s a) (ht : MessageQueue.step s a = some t) :
    ¬ t.Exact := by
  cases a with
  | sendLink u =>
      cases hu : s.sender u with
      | walked buffer new tail =>
          cases tail with
          | none => simp [TailStillQueued, hu] at ha
          | some b =>
              have hhead : s.messagesHead = none := by simpa [TailStillQueued, hu] using ha
              obtain rfl : enqueueLink s u buffer new (some b) = t := by
                simpa [MessageQueue.step, hu] using ht
              have hchain := h.chain
              rw [hhead] at hchain
              obtain rfl := hchain.nil_of_none
              have hhanded : s.handed = s.enqueued := by
                have := h.buffers
                cases hb : s.headHanded <;> simpa [hb, unhanded] using this
              have hqueued : (enqueueLink s u buffer new (some b)).queued = [] := by
                have hvalues : ∀ (heap : Heap β) fuel, heap.values fuel none = [] := by
                  intro heap fuel
                  cases fuel <;> rfl
                simp [State.queued, enqueueLink, State.setSender, hhead, hvalues]
              intro hexact
              have hlen := congrArg List.length hexact
              rw [hqueued] at hlen
              simp [enqueueLink, State.setSender, hhanded] at hlen
      | _ => simp [TailStillQueued, hu] at ha
  | _ => simp [TailStillQueued] at ha

/-- In every interleaving the buffers handed over and those still queued are exactly the
buffers enqueued, throughout the run, if and only if no sender links behind a tail that was
drained after its walk. -/
theorem queue_exact_iff (actions : List (Action β)) :
    (system β).Throughout State.Exact initial actions ↔
      (system β).Respecting TailStillQueued initial actions := by
  refine System.throughout_iff_respecting (I := fun s => ∃ cells, Invariant s cells) ?_ ?_ ?_
    ⟨[], invariant_initial⟩ actions
  · rintro s ⟨cells, h⟩
    exact h.exact_state
  · rintro s a t ⟨cells, h⟩ ha ht
    exact h.step ha ht
  · rintro s a t ⟨cells, h⟩ ha ht
    exact h.not_exact_of_lost ha ht

/-- A second sender walks to the only queued node, the node is drained, and the sender links
behind it. -/
def lostRun : List (Action ℕ) :=
  [.sendLock 0 10, .sendWalk 0, .sendLink 0, .sendUnlock 0,
    .sendLock 1 20, .sendWalk 1,
    .drainLock 0, .drainHandOver 0, .drainAdvance 0, .drainUnlock 0,
    .sendLink 1, .sendUnlock 1]

theorem lostRun_loses_message :
    ∃ s, (system ℕ).run initial lostRun = some s ∧ s.handed = [10] ∧ s.queued = [] ∧
      s.enqueued = [10, 20] ∧ ¬ s.Exact := by
  refine ⟨_, rfl, rfl, rfl, rfl, ?_⟩
  change ¬ [10] ++ [] = [10, 20]
  decide

end Dynpm.MessageQueue
