import Dynpm.Library.Fields
import Dynpm.Verification.Protocol.Frame

/-! # What decoding depends on

The deserialisers ignore how many fields `sscanf` has found, so that a field behind the first one
that is missing keeps what the allocated memory held. A string that is too long for its buffer is
written beyond it, and then nothing is known about the message any more. Decoding depends on the
frame only exactly when no field is missing and all strings fit.
-/

namespace Dynpm.Protocol

open Library Library.Stdio

/-- The call returns or ends with a failed assertion. Any other fault leaves the defined
behaviour. -/
def Defined {α : Type} : Except Fault α → Prop
  | .ok _ => True
  | .error fault => fault = .assertion

/-- Executions that differ in what the allocated memory held are defined, and they return the same
message or all fail an assertion. The function `view` says what is compared. -/
def Deterministic {μ α : Type} (view : α → α) (decode : μ → Except Fault α) : Prop :=
  ∀ malloc malloc', Defined (decode malloc) ∧
    (decode malloc).map view = (decode malloc').map view

/-- A text that a scan with the given format reads completely, and all strings of which fit. -/
def Scanned (format : String) (capacities : List ℕ) (text : List UInt8) : Prop :=
  ¬ Overlong (parseFormat format.toList) capacities text ∧
    HasFields (parseFormat format.toList) text

/-- Memory that `malloc` has returned filled with ones. -/
def oneGarbage : Garbage := ⟨fun _ => 1, fun _ => [1]⟩

/-! ## Scans -/

section

variable {frame : Frame} {values : List Arg} {fields : List Directive} {position : ℕ}

theorem sscanf_eq (hnul : 0 ∈ frame.bytes) (format : String) (capacities : List ℕ) :
    frame.sscanf format capacities =
      scan (parseFormat format.toList) capacities (cstring frame.bytes) := by
  rw [Frame.sscanf, Frame.text, if_pos hnul]
  rfl

/-- A field that has been read does not depend on the memory. -/
theorem intAt_congr (hvalues : values.map Arg.directive = fields)
    (hint : fields[position]? = some .int) (malloc malloc' : Garbage) :
    malloc.intAt values position = malloc'.intAt values position := by
  subst hvalues
  rw [List.getElem?_map, Option.map_eq_some_iff] at hint
  obtain ⟨arg, harg, hint⟩ := hint
  cases arg with
  | int v => simp only [Garbage.intAt, harg]
  | str s => exact absurd hint (by simp [Arg.directive])

theorem strAt_congr (hvalues : values.map Arg.directive = fields)
    (hstr : fields[position]? = some .str) (malloc malloc' : Garbage) :
    malloc.strAt values position = malloc'.strAt values position := by
  subst hvalues
  rw [List.getElem?_map, Option.map_eq_some_iff] at hstr
  obtain ⟨arg, harg, hstr⟩ := hstr
  cases arg with
  | int v => exact absurd hstr (by simp [Arg.directive])
  | str s => simp only [Garbage.strAt, harg]

/-- A field that has not been read is what the memory held. -/
theorem intAt_of_length_le (h : values.length ≤ position) (malloc : Garbage) :
    malloc.intAt values position = malloc.int position := by
  rw [Garbage.intAt, List.getElem?_eq_none h]

theorem strAt_of_length_le (h : values.length ≤ position) (malloc : Garbage) :
    malloc.strAt values position = malloc.str position := by
  rw [Garbage.strAt, List.getElem?_eq_none h]

/-- Then it shows what the memory held. -/
theorem intAt_ne (h : values.length ≤ position) :
    zeroGarbage.intAt values position ≠ oneGarbage.intAt values position := by
  rw [intAt_of_length_le h, intAt_of_length_le h]
  change (0 : UInt32) ≠ 1
  decide

theorem strAt_ne (h : values.length ≤ position) :
    cstring (zeroGarbage.strAt values position) ≠ cstring (oneGarbage.strAt values position) := by
  rw [strAt_of_length_le h, strAt_of_length_le h]
  change cstring [] ≠ cstring [1]
  decide

theorem length_lt_of_front (hfront : values.map Arg.directive <+: fields)
    (hne : values.map Arg.directive ≠ fields) : values.length < fields.length := by
  have hle := hfront.length_le
  rw [List.length_map] at hle
  refine Nat.lt_of_le_of_ne hle ?_
  intro hlen
  exact hne (hfront.eq_of_length (by rw [List.length_map, hlen]))

/-- A scan that writes beyond a buffer is not defined. -/
theorem not_deterministic_of_overlong {α : Type} {view : α → α} {decode : Garbage → Except Fault α}
    {build : Garbage → List Arg → Except Fault α} {format : String} {capacities : List ℕ}
    {text : List UInt8}
    (hdecode : ∀ malloc, decode malloc =
      scan (parseFormat format.toList) capacities text >>= build malloc)
    (hblank : Blank (parseFormat format.toList))
    (hlong : Overlong (parseFormat format.toList) capacities text) :
    ¬ Deterministic view decode := by
  intro h
  have hfault : decode zeroGarbage = .error .outOfBounds := by
    rw [hdecode, scan_of_overlong hblank hlong]
    rfl
  have hdefined := (h zeroGarbage zeroGarbage).1
  rw [hfault] at hdefined
  exact absurd hdefined (by simp [Defined])

/-- The argument shared by the decoders of a text: `build` is the message that they make of the
values. -/
theorem deterministic_iff_scanned {α : Type} {view : α → α} {decode : Garbage → Except Fault α}
    {build : Garbage → List Arg → α} {format : String} {capacities : List ℕ}
    {text : List UInt8}
    (hdecode : ∀ malloc, decode malloc =
      scan (parseFormat format.toList) capacities text >>= fun values =>
        pure (build malloc values))
    (hblank : Blank (parseFormat format.toList))
    (hall : ∀ values, values.map Arg.directive = conversions (parseFormat format.toList) →
      ∀ malloc malloc', build malloc values = build malloc' values)
    (hmissing : ∀ values : List Arg,
      values.length < (conversions (parseFormat format.toList)).length →
        view (build zeroGarbage values) ≠ view (build oneGarbage values)) :
    Deterministic view decode ↔ Scanned format capacities text := by
  by_cases hlong : Overlong (parseFormat format.toList) capacities text
  · exact iff_of_false (not_deterministic_of_overlong hdecode hblank hlong)
      fun hscanned => hscanned.1 hlong
  · obtain ⟨values, hscan, hfront, hfields⟩ := scan_of_not_overlong hblank hlong
    have hbuild : ∀ malloc, decode malloc = .ok (build malloc values) := by
      intro malloc
      rw [hdecode, hscan]
      rfl
    rw [Scanned, and_iff_right hlong, hfields]
    constructor
    · intro h
      by_contra hne
      apply hmissing values (length_lt_of_front hfront hne)
      have heq := (h zeroGarbage oneGarbage).2
      rw [hbuild, hbuild] at heq
      exact Except.ok.inj heq
    · intro h malloc malloc'
      rw [hbuild, hbuild, hall values h malloc malloc']
      exact ⟨trivial, rfl⟩

/-- The decoders that scan the text of a frame. -/
theorem deterministic_iff_frame {α : Type} {view : α → α} {decode : Garbage → Except Fault α}
    {build : Garbage → List Arg → α} {format : String} {capacities : List ℕ}
    (hnul : 0 ∈ frame.bytes)
    (hdecode : ∀ malloc, decode malloc = frame.sscanf format capacities >>= fun values =>
      pure (build malloc values))
    (hblank : Blank (parseFormat format.toList))
    (hall : ∀ values, values.map Arg.directive = conversions (parseFormat format.toList) →
      ∀ malloc malloc', build malloc values = build malloc' values)
    (hmissing : ∀ values : List Arg,
      values.length < (conversions (parseFormat format.toList)).length →
        view (build zeroGarbage values) ≠ view (build oneGarbage values)) :
    Deterministic view decode ↔ Scanned format capacities (cstring frame.bytes) := by
  apply deterministic_iff_scanned _ hblank hall hmissing
  intro malloc
  rw [hdecode, sscanf_eq hnul]

end

/-! ## Messages of text -/

/-- A message whose string fields are compared as C strings. -/
def RegisterConnectionMsg.asCStrings (msg : RegisterConnectionMsg) : RegisterConnectionMsg :=
  { msg with hostname := cstring msg.hostname }

def DeregisterConnectionMsg.asCStrings (msg : DeregisterConnectionMsg) :
    DeregisterConnectionMsg :=
  { msg with hostname := cstring msg.hostname }

def CreateTbonMsg.asCStrings (msg : CreateTbonMsg) : CreateTbonMsg :=
  { msg with nodes := cstring msg.nodes }

def DeregisterProcessManagerMsg.asCStrings (msg : DeregisterProcessManagerMsg) :
    DeregisterProcessManagerMsg :=
  { msg with hostname := cstring msg.hostname }

def ReallocationStartMsg.asCStrings (msg : ReallocationStartMsg) : ReallocationStartMsg :=
  { msg with
    currentNodes := cstring msg.currentNodes
    deltaNodes := cstring msg.deltaNodes
    updatedNodes := cstring msg.updatedNodes }

def ReallocationCompleteMsg.asCStrings (msg : ReallocationCompleteMsg) : ReallocationCompleteMsg :=
  { msg with nodes := cstring msg.nodes }

section

variable {frame : Frame} (hnul : 0 ∈ frame.bytes)

include hnul

theorem header_deterministic_iff :
    Deterministic id (deserializeHeader · frame) ↔
      Scanned "%d %d" [] (cstring frame.bytes) := by
  refine deterministic_iff_frame hnul (fun _ => rfl) (by decide) ?_ ?_
  · intro values hvalues malloc malloc'
    rw [intAt_congr hvalues rfl malloc malloc', intAt_congr hvalues rfl malloc malloc']
  · intro values hlt heq
    exact intAt_ne (Nat.le_of_lt_succ hlt)
      (congrArg Header.messageType heq)

theorem registerConnection_deterministic_iff :
    Deterministic RegisterConnectionMsg.asCStrings (deserializeRegisterConnectionMsg · frame) ↔
      Scanned "%d %d %d %s" [256] (cstring frame.bytes) := by
  refine deterministic_iff_frame hnul (fun _ => rfl) (by decide) ?_ ?_
  · intro values hvalues malloc malloc'
    rw [intAt_congr hvalues rfl malloc malloc', strAt_congr hvalues rfl malloc malloc']
  · intro values hlt heq
    exact strAt_ne (Nat.le_of_lt_succ hlt)
      (congrArg RegisterConnectionMsg.hostname heq)

theorem deregisterConnection_deterministic_iff :
    Deterministic DeregisterConnectionMsg.asCStrings (deserializeDeregisterConnectionMsg · frame) ↔
      Scanned "%d %d %d %s %d" [256] (cstring frame.bytes) := by
  refine deterministic_iff_frame hnul (fun _ => rfl) (by decide) ?_ ?_
  · intro values hvalues malloc malloc'
    rw [intAt_congr hvalues rfl malloc malloc', strAt_congr hvalues rfl malloc malloc',
      intAt_congr hvalues rfl malloc malloc']
  · intro values hlt heq
    exact intAt_ne (Nat.le_of_lt_succ hlt)
      (congrArg (fun msg => msg.errorCode.toUInt32) heq)

theorem createTbon_deterministic_iff :
    Deterministic CreateTbonMsg.asCStrings (deserializeCreateTbonMsg · frame) ↔
      Scanned "%d %d %d %d %d %s" [256] (cstring frame.bytes) := by
  refine deterministic_iff_frame hnul (fun _ => rfl) (by decide) ?_ ?_
  · intro values hvalues malloc malloc'
    rw [intAt_congr hvalues rfl malloc malloc', intAt_congr hvalues rfl malloc malloc',
      intAt_congr hvalues rfl malloc malloc', strAt_congr hvalues rfl malloc malloc']
  · intro values hlt heq
    exact strAt_ne (Nat.le_of_lt_succ hlt)
      (congrArg CreateTbonMsg.nodes heq)

theorem ready_deterministic_iff :
    Deterministic id (deserializeReadyMsg · frame) ↔
      Scanned "%d %d %d %d %d" [] (cstring frame.bytes) := by
  refine deterministic_iff_frame hnul (fun _ => rfl) (by decide) ?_ ?_
  · intro values hvalues malloc malloc'
    rw [intAt_congr hvalues rfl malloc malloc', intAt_congr hvalues rfl malloc malloc',
      intAt_congr hvalues rfl malloc malloc']
  · intro values hlt heq
    exact intAt_ne (Nat.le_of_lt_succ hlt)
      (congrArg ReadyMsg.errorCode heq)

theorem deregisterProcessManager_deterministic_iff :
    Deterministic DeregisterProcessManagerMsg.asCStrings
        (deserializeDeregisterProcessManagerMsg · frame) ↔
      Scanned "%d %d %d %s %d" [256] (cstring frame.bytes) := by
  refine deterministic_iff_frame hnul (fun _ => rfl) (by decide) ?_ ?_
  · intro values hvalues malloc malloc'
    rw [intAt_congr hvalues rfl malloc malloc', strAt_congr hvalues rfl malloc malloc',
      intAt_congr hvalues rfl malloc malloc']
  · intro values hlt heq
    exact intAt_ne (Nat.le_of_lt_succ hlt)
      (congrArg (fun msg => msg.errorCode.toUInt32) heq)

theorem allocationRequest_deterministic_iff :
    Deterministic id (deserializeAllocationRequestMsg · frame) ↔
      Scanned "%d %d %d %d %d %d " [] (cstring frame.bytes) := by
  refine deterministic_iff_frame hnul (fun _ => rfl) (by decide) ?_ ?_
  · intro values hvalues malloc malloc'
    rw [intAt_congr hvalues rfl malloc malloc', intAt_congr hvalues rfl malloc malloc',
      intAt_congr hvalues rfl malloc malloc', intAt_congr hvalues rfl malloc malloc']
  · intro values hlt heq
    exact intAt_ne (Nat.le_of_lt_succ hlt)
      (congrArg AllocationRequestMsg.nodeCount heq)

theorem reallocationStart_deterministic_iff :
    Deterministic ReallocationStartMsg.asCStrings (deserializeReallocationStartMsg · frame) ↔
      Scanned "%d %d %d %d %d %d %s %d %s %d %s" [1024, 1024, 1024] (cstring frame.bytes) := by
  refine deterministic_iff_frame hnul (fun _ => rfl) (by decide) ?_ ?_
  · intro values hvalues malloc malloc'
    rw [intAt_congr hvalues rfl malloc malloc', intAt_congr hvalues rfl malloc malloc',
      intAt_congr hvalues rfl malloc malloc', intAt_congr hvalues rfl malloc malloc',
      strAt_congr hvalues rfl malloc malloc', intAt_congr hvalues rfl malloc malloc',
      strAt_congr hvalues rfl malloc malloc', intAt_congr hvalues rfl malloc malloc',
      strAt_congr hvalues rfl malloc malloc']
  · intro values hlt heq
    exact strAt_ne (Nat.le_of_lt_succ hlt)
      (congrArg ReallocationStartMsg.updatedNodes heq)

theorem reallocationComplete_deterministic_iff :
    Deterministic ReallocationCompleteMsg.asCStrings (deserializeReallocationCompleteMsg · frame) ↔
      Scanned "%d %d %d %d %d %d %s %d" [256] (cstring frame.bytes) := by
  refine deterministic_iff_frame hnul (fun _ => rfl) (by decide) ?_ ?_
  · intro values hvalues malloc malloc'
    rw [intAt_congr hvalues rfl malloc malloc', intAt_congr hvalues rfl malloc malloc',
      intAt_congr hvalues rfl malloc malloc', intAt_congr hvalues rfl malloc malloc',
      strAt_congr hvalues rfl malloc malloc', intAt_congr hvalues rfl malloc malloc']
  · intro values hlt heq
    exact intAt_ne (Nat.le_of_lt_succ hlt)
      (congrArg ReallocationCompleteMsg.statusCode heq)

omit hnul in
theorem timeOfHalves_ne (low low' : UInt32) : timeOfHalves low 0 ≠ timeOfHalves low' 1 := by
  have hlow := low.toNat_lt
  have hlow' := low'.toNat_lt
  intro heq
  have hnat := congrArg UInt64.toNat heq
  simp only [timeOfHalves, UInt64.toNat_ofNat', UInt32.toNat_zero, UInt32.toNat_one] at hnat
  omega

/-- The high halves of the two times are never read from the frame. -/
theorem resourceOffer_not_deterministic :
    ¬ Deterministic id (deserializeResourceOfferMsg · frame) := by
  intro h
  have hnumbers : ∀ directive ∈ parseFormat "%d %d %d %d %d %d %d".toList,
      directive ≠ .str := by decide
  obtain ⟨values, hscan, -⟩ := scan_of_not_overlong (by decide)
    (not_overlong_of_no_str hnumbers [] (cstring frame.bytes))
  have hdecode : ∀ malloc, ∃ msg, deserializeResourceOfferMsg malloc frame = .ok msg ∧
      msg.endTime = timeOfHalves (malloc.intAt values 6) (malloc.int 8) := by
    intro malloc
    rw [deserializeResourceOfferMsg, sscanf_eq hnul, hscan]
    exact ⟨_, rfl, rfl⟩
  obtain ⟨msg, hmsg, htime⟩ := hdecode zeroGarbage
  obtain ⟨msg', hmsg', htime'⟩ := hdecode oneGarbage
  have heq := (h zeroGarbage oneGarbage).2
  simp only [hmsg, hmsg'] at heq
  obtain rfl : msg = msg' := Except.ok.inj heq
  exact timeOfHalves_ne _ _ (htime.symm.trans htime')

end

/-! ## Messages with a binary payload -/

def DynamicIoOutMsg.asCStrings (msg : DynamicIoOutMsg) : DynamicIoOutMsg :=
  { msg with host := cstring msg.host }

/-- The number that a scan stores at `position`: the field of the text or, where the text has no
such field, what the memory held. -/
def announced (malloc : Garbage) (format : String) (capacities : List ℕ) (text : List UInt8)
    (position : ℕ) : ℕ :=
  match scan (parseFormat format.toList) capacities text with
  | .ok values => (malloc.intAt values position).toNat
  | .error _ => (malloc.int position).toNat

theorem announced_of_scan (malloc : Garbage) {format : String} {capacities : List ℕ}
    {text : List UInt8} {values : List Arg}
    (h : scan (parseFormat format.toList) capacities text = .ok values) (position : ℕ) :
    announced malloc format capacities text position = (malloc.intAt values position).toNat := by
  simp only [announced, h]

/-- A text whose strings fit, and whose length fails the assertion or that a scan with the given
format reads completely and that announces, at `position`, a payload inside the frame. -/
def ScannedOrAsserted (format : String) (capacities : List ℕ) (position : ℕ)
    (text : List UInt8) : Prop :=
  ¬ Overlong (parseFormat format.toList) capacities text ∧
    (payloadOffset ≤ text.length ∨
      HasFields (parseFormat format.toList) text ∧
        payloadOffset + announced zeroGarbage format capacities text position ≤ maxMessageSize)

section

variable {frame : Frame} (hnul : 0 ∈ frame.bytes)

include hnul

theorem assertText_eq : assertText frame =
    if (cstring frame.bytes).length < payloadOffset then .ok () else .error .assertion := by
  rw [assertText, Frame.text, if_pos hnul]
  rfl

/-- A payload that lies inside the frame is copied. -/
theorem loadPayload_ok (hshort : (cstring frame.bytes).length < payloadOffset)
    {payloadBytes : UInt32} (hfits : payloadOffset + payloadBytes.toNat ≤ maxMessageSize) :
    ∃ payload, loadPayload payloadBytes frame = .ok payload := by
  simp only [loadPayload, assertText_eq hnul, if_pos hshort, bind, Except.bind]
  split
  · rw [Frame.read_ok hfits]
    exact ⟨_, rfl⟩
  · exact ⟨none, rfl⟩

/-- A payload that reaches beyond the frame is not. -/
theorem loadPayload_error (hshort : (cstring frame.bytes).length < payloadOffset)
    {payloadBytes : UInt32} (hlarge : ¬ payloadOffset + payloadBytes.toNat ≤ maxMessageSize) :
    loadPayload payloadBytes frame = .error .outOfBounds := by
  have hpos : 0 < payloadBytes := by
    rw [UInt32.pos_iff_ne_zero]
    rintro rfl
    exact hlarge (by decide)
  simp only [loadPayload, assertText_eq hnul, if_pos hshort, if_pos hpos, Frame.read,
    if_neg hlarge, bind, Except.bind]

theorem loadPayload_asserted (hlong : ¬ (cstring frame.bytes).length < payloadOffset)
    (payloadBytes : UInt32) : loadPayload payloadBytes frame = .error .assertion := by
  rw [loadPayload, assertText_eq hnul, if_neg hlong]
  rfl

/-- The argument shared by the decoders of a payload, whose length is the last field. -/
theorem deterministic_iff_payload {α : Type} {view : α → α} {decode : Garbage → Except Fault α}
    {build : Garbage → List Arg → Option (List UInt8) → α} (bytes : α → UInt32)
    {format : String} {capacities : List ℕ} {position : ℕ}
    (hdecode : ∀ malloc, decode malloc = frame.sscanf format capacities >>= fun values =>
      loadPayload (malloc.intAt values position) frame >>= fun payload =>
        pure (build malloc values payload))
    (hblank : Blank (parseFormat format.toList))
    (hlast : (conversions (parseFormat format.toList)).length = position + 1)
    (hint : (conversions (parseFormat format.toList))[position]? = some .int)
    (hall : ∀ values, values.map Arg.directive = conversions (parseFormat format.toList) →
      ∀ malloc malloc' payload, build malloc values payload = build malloc' values payload)
    (hbytes : ∀ malloc values payload,
      bytes (view (build malloc values payload)) = malloc.intAt values position) :
    Deterministic view decode ↔
      ScannedOrAsserted format capacities position (cstring frame.bytes) := by
  simp only [sscanf_eq hnul] at hdecode
  by_cases hlong : Overlong (parseFormat format.toList) capacities (cstring frame.bytes)
  · exact iff_of_false (not_deterministic_of_overlong hdecode hblank hlong)
      fun hscanned => hscanned.1 hlong
  obtain ⟨values, hscan, hfront, hfields⟩ := scan_of_not_overlong hblank hlong
  have hload : ∀ malloc, decode malloc =
      loadPayload (malloc.intAt values position) frame >>= fun payload =>
        pure (build malloc values payload) := by
    intro malloc
    rw [hdecode, hscan]
    rfl
  rw [ScannedOrAsserted, and_iff_right hlong, hfields, announced_of_scan zeroGarbage hscan]
  by_cases hshort : (cstring frame.bytes).length < payloadOffset
  · rw [or_iff_right (Nat.not_le.mpr hshort)]
    by_cases hcomplete : values.map Arg.directive = conversions (parseFormat format.toList)
    · -- the size of the payload has been read
      rw [and_iff_right hcomplete]
      have hsize := fun malloc => intAt_congr hcomplete hint malloc zeroGarbage
      by_cases hfits : payloadOffset + (zeroGarbage.intAt values position).toNat ≤ maxMessageSize
      · obtain ⟨payload, hpayload⟩ := loadPayload_ok hnul hshort hfits
        refine iff_of_true ?_ hfits
        intro malloc malloc'
        rw [hload, hload, hsize malloc, hsize malloc', hpayload, ok_bind, ok_bind,
          hall values hcomplete malloc malloc']
        exact ⟨trivial, rfl⟩
      · refine iff_of_false ?_ hfits
        intro h
        have hdefined := (h zeroGarbage zeroGarbage).1
        rw [hload, loadPayload_error hnul hshort hfits] at hdefined
        exact absurd hdefined (by simp [Defined])
    · -- the size of the payload is what the memory held
      refine iff_of_false ?_ fun h => hcomplete h.1
      intro h
      have hle : values.length ≤ position := by
        have hlt := length_lt_of_front hfront hcomplete
        omega
      have hvalue : zeroGarbage.intAt values position = 0 := intAt_of_length_le hle _
      have hvalue' : oneGarbage.intAt values position = 1 := intAt_of_length_le hle _
      have hfits : payloadOffset + (0 : UInt32).toNat ≤ maxMessageSize := by decide
      have hfits' : payloadOffset + (1 : UInt32).toNat ≤ maxMessageSize := by decide
      obtain ⟨payload, hzero⟩ := loadPayload_ok hnul hshort hfits
      obtain ⟨payload', hone⟩ := loadPayload_ok hnul hshort hfits'
      have heq := (h zeroGarbage oneGarbage).2
      rw [hload, hload, hvalue, hvalue', hzero, hone] at heq
      have hview := congrArg bytes (Except.ok.inj heq)
      rw [hbytes, hbytes, hvalue, hvalue'] at hview
      exact absurd hview (by decide)
  · refine iff_of_true ?_ (Or.inl (Nat.not_lt.mp hshort))
    intro malloc malloc'
    rw [hload, hload, loadPayload_asserted hnul hshort, loadPayload_asserted hnul hshort]
    exact ⟨rfl, rfl⟩

theorem dynamicPmLaunch_deterministic_iff :
    Deterministic id (deserializeDynamicPmLaunchMsg · frame) ↔
      ScannedOrAsserted "%d %d %d %d %d" [] 4 (cstring frame.bytes) := by
  refine deterministic_iff_payload hnul DynamicPmLaunchMsg.payloadBytes (fun _ => rfl) (by decide)
    rfl rfl ?_ (fun _ _ _ => rfl)
  intro values hvalues malloc malloc' payload
  rw [intAt_congr hvalues rfl malloc malloc', intAt_congr hvalues rfl malloc malloc',
    intAt_congr hvalues rfl malloc malloc']

theorem dynamicIoOut_deterministic_iff :
    Deterministic DynamicIoOutMsg.asCStrings (deserializeDynamicIoOutMsg · frame) ↔
      ScannedOrAsserted "%d %d %d %s %d " [256] 4 (cstring frame.bytes) := by
  refine deterministic_iff_payload hnul DynamicIoOutMsg.payloadBytes (fun _ => rfl) (by decide)
    rfl rfl ?_ (fun _ _ _ => rfl)
  intro values hvalues malloc malloc' payload
  rw [intAt_congr hvalues rfl malloc malloc', strAt_congr hvalues rfl malloc malloc',
    intAt_congr hvalues rfl malloc malloc']

theorem reportProcessData_deterministic_iff :
    Deterministic id (deserializeReportProcessDataMsg · frame) ↔
      ScannedOrAsserted "%d %d %d %d %d %d %d" [] 6 (cstring frame.bytes) := by
  refine deterministic_iff_payload hnul ReportProcessDataMsg.payloadBytes (fun _ => rfl)
    (by decide) rfl rfl ?_ (fun _ _ _ => rfl)
  intro values hvalues malloc malloc' payload
  rw [intAt_congr hvalues rfl malloc malloc', intAt_congr hvalues rfl malloc malloc',
    intAt_congr hvalues rfl malloc malloc', intAt_congr hvalues rfl malloc malloc',
    intAt_congr hvalues rfl malloc malloc']

end

end Dynpm.Protocol
