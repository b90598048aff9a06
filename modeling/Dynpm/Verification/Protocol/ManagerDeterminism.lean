import Dynpm.Library.Strtok
import Dynpm.Verification.Protocol.Determinism

/-! # What decoding the process manager registration depends on

The decoder takes the text apart into lines. The first line announces how many lines with an
application follow, and each of them is scanned into memory of its own.
-/

namespace Dynpm.Protocol

open Library Library.Stdio

/-! ## Lines -/

/-- The lines of a text. -/
def linesOf (text : List UInt8) : List (List UInt8) := tokens [13, 10] text

/-- `strtok` returns the next line of the frame and leaves the others. -/
theorem strtok_lines {buffer : Frame} {cursor : ℕ} (hnul : 0 ∈ buffer.bytes.drop cursor) :
    ∃ out next, buffer.strtok [13, 10] cursor =
        .ok ((linesOf (cstring (buffer.bytes.drop cursor))).head?, out, next) ∧
      0 ∈ out.bytes.drop next ∧
      linesOf (cstring (out.bytes.drop next)) =
        (linesOf (cstring (buffer.bytes.drop cursor))).tail := by
  have hdelimiters : 0 ∉ ([13, 10] : List UInt8) := by decide
  obtain ⟨result, hresult, htoken, hnul', htail⟩ := strtok_tokens hdelimiters hnul
  have hleft := buffer.terminate_bytes result
  refine ⟨buffer.terminate result.overwritten, result.cursor, ?_, ?_, ?_⟩
  · rw [Frame.strtok, hresult, linesOf, ← htoken]
    rfl
  · rw [hleft]
    exact hnul'
  · rw [hleft]
    exact htail

/-- The values scanned from the given number of lines. -/
def scanLines : ℕ → List (List UInt8) → Except Fault (List (List Arg))
  | 0, _ => .ok []
  | count + 1, lines => do
      let values ← scanLine lines.head? "%d %d %d %s" [512]
      let rest ← scanLines count lines.tail
      return values :: rest

/-- The application that the values of a line are stored to. -/
def applicationOf (malloc : Garbage) (values : List Arg) : Application where
  applicationIndex := malloc.intAt values 0
  malleabilityMode := malloc.intAt values 1
  nodeCount := malloc.intAt values 2
  nodes := malloc.strAt values 3

/-- The applications that the values of the lines are stored to, from the index `app` on. -/
def applicationsOf (malloc : ℕ → Garbage) : ℕ → List (List Arg) → List Application
  | _, [] => []
  | app, values :: rest =>
      applicationOf (malloc (app + 1)) values :: applicationsOf malloc (app + 1) rest

/-- What the loop reads does not depend on the memory, only where it is stored does. -/
theorem deserializeApplications_eq (count app : ℕ) {buffer : Frame} {cursor : ℕ}
    (hnul : 0 ∈ buffer.bytes.drop cursor) :
    ∃ out, ∀ malloc, deserializeApplications malloc count app buffer cursor =
      (scanLines count (linesOf (cstring (buffer.bytes.drop cursor)))).map fun all =>
        (applicationsOf malloc app all, out) := by
  induction count generalizing app buffer cursor with
  | zero => exact ⟨buffer, fun _ => rfl⟩
  | succ count ih =>
      obtain ⟨buffer', cursor', hstrtok, hnul', htail⟩ := strtok_lines hnul
      obtain ⟨out, hout⟩ := ih (app + 1) hnul'
      refine ⟨out, ?_⟩
      intro malloc
      rw [deserializeApplications, hstrtok, scanLines, ← htail]
      cases hscan : scanLine (linesOf (cstring (buffer.bytes.drop cursor))).head?
          "%d %d %d %s" [512] with
      | error fault => simp [hscan, bind, Except.bind, Except.map]
      | ok values =>
          simp only [bind, Except.bind, hscan, hout]
          cases scanLines count (linesOf (cstring (buffer'.bytes.drop cursor'))) with
          | error fault => rfl
          | ok rest => rfl

/-! ## The applications -/

def Application.asCStrings (application : Application) : Application :=
  { application with nodes := cstring application.nodes }

/-- The directives for a line with an application. -/
def applicationDirectives : List Directive := parseFormat "%d %d %d %s".toList

theorem blank_applicationDirectives : Blank applicationDirectives := by decide

theorem scanLine_application (line : List UInt8) :
    scanLine (some line) "%d %d %d %s" [512] = scan applicationDirectives [512] line := rfl

/-- The given number of lines can be scanned without a fault. -/
def Scannable (count : ℕ) (lines : List (List UInt8)) : Prop :=
  count ≤ lines.length ∧
    ∀ line ∈ lines.take count, ¬ Overlong applicationDirectives [512] line

theorem applicationOf_congr {values : List Arg}
    (hvalues : values.map Arg.directive = conversions applicationDirectives)
    (malloc malloc' : Garbage) : applicationOf malloc values = applicationOf malloc' values := by
  rw [applicationOf, intAt_congr hvalues rfl malloc malloc', intAt_congr hvalues rfl malloc malloc',
    intAt_congr hvalues rfl malloc malloc', strAt_congr hvalues rfl malloc malloc']
  rfl

theorem applicationOf_ne {values : List Arg}
    (hlt : values.length < (conversions applicationDirectives).length) :
    (applicationOf zeroGarbage values).asCStrings ≠
      (applicationOf oneGarbage values).asCStrings := by
  intro heq
  exact strAt_ne (Nat.le_of_lt_succ hlt) (congrArg Application.nodes heq)

/-- The values of scannable lines are complete exactly when the lines have all fields. -/
theorem scanLines_of_scannable {count : ℕ} {lines : List (List UInt8)}
    (h : Scannable count lines) :
    ∃ all, scanLines count lines = .ok all ∧
      (∀ values ∈ all, values.map Arg.directive <+: conversions applicationDirectives) ∧
      ((∀ line ∈ lines.take count, HasFields applicationDirectives line) ↔
        ∀ values ∈ all, values.map Arg.directive = conversions applicationDirectives) := by
  induction count generalizing lines with
  | zero => exact ⟨[], rfl, by simp, by simp⟩
  | succ count ih =>
      obtain ⟨hlength, hfits⟩ := h
      cases lines with
      | nil => exact absurd hlength (by simp)
      | cons line lines =>
          simp only [List.take_succ_cons, List.forall_mem_cons] at hfits
          obtain ⟨values, hscan, hfront, hfields⟩ :=
            scan_of_not_overlong blank_applicationDirectives hfits.1
          obtain ⟨rest, hrest, hfronts, hall⟩ :=
            ih ⟨Nat.le_of_succ_le_succ hlength, hfits.2⟩
          refine ⟨values :: rest, ?_, ?_, ?_⟩
          · simp only [scanLines, List.head?_cons, List.tail_cons, scanLine_application, hscan,
              hrest]
            rfl
          · exact List.forall_mem_cons.mpr ⟨hfront, hfronts⟩
          · simp only [List.take_succ_cons, List.forall_mem_cons, hfields, hall]

/-- A line that is missing or has a string that is too long is not a failed assertion. -/
theorem scanLines_of_not_scannable {count : ℕ} {lines : List (List UInt8)}
    (h : ¬ Scannable count lines) : ¬ Defined (scanLines count lines) := by
  induction count generalizing lines with
  | zero => exact absurd ⟨Nat.zero_le _, by simp⟩ h
  | succ count ih =>
      cases lines with
      | nil =>
          have hfault : scanLines (count + 1) [] = .error .nullPointer := rfl
          simp [hfault, Defined]
      | cons line lines =>
          simp only [scanLines, List.head?_cons, List.tail_cons, scanLine_application]
          by_cases hlong : Overlong applicationDirectives [512] line
          · rw [scan_of_overlong blank_applicationDirectives hlong]
            simp [error_bind, Defined]
          · obtain ⟨values, hscan, -⟩ := scan_of_not_overlong blank_applicationDirectives hlong
            have hrest : ¬ Scannable count lines := by
              intro hrest
              refine h ⟨Nat.succ_le_succ hrest.1, ?_⟩
              exact List.forall_mem_cons.mpr ⟨hlong, hrest.2⟩
            have hfault := ih hrest
            rw [hscan, ok_bind]
            cases hlines : scanLines count lines with
            | error fault =>
                rw [hlines] at hfault
                exact hfault
            | ok all => exact absurd (by rw [hlines]; trivial) hfault

/-- Complete values do not depend on the memory. -/
theorem applicationsOf_congr {all : List (List Arg)}
    (hall : ∀ values ∈ all, values.map Arg.directive = conversions applicationDirectives)
    (app : ℕ) (malloc malloc' : ℕ → Garbage) :
    applicationsOf malloc app all = applicationsOf malloc' app all := by
  induction all generalizing app with
  | nil => rfl
  | cons values all ih =>
      obtain ⟨hvalues, hall⟩ := List.forall_mem_cons.mp hall
      rw [applicationsOf, applicationsOf, ih hall (app + 1),
        applicationOf_congr hvalues (malloc (app + 1)) (malloc' (app + 1))]

/-- Incomplete values show what the memory held. -/
theorem complete_of_applicationsOf_eq {all : List (List Arg)}
    (hfronts : ∀ values ∈ all, values.map Arg.directive <+: conversions applicationDirectives)
    (app : ℕ)
    (heq : (applicationsOf (fun _ => zeroGarbage) app all).map Application.asCStrings =
      (applicationsOf (fun _ => oneGarbage) app all).map Application.asCStrings) :
    ∀ values ∈ all, values.map Arg.directive = conversions applicationDirectives := by
  induction all generalizing app with
  | nil => simp
  | cons values all ih =>
      obtain ⟨hfront, hfronts⟩ := List.forall_mem_cons.mp hfronts
      simp only [applicationsOf, List.map_cons, List.cons.injEq] at heq
      refine List.forall_mem_cons.mpr ⟨?_, ih hfronts (app + 1) heq.2⟩
      by_contra hne
      apply applicationOf_ne _ heq.1
      exact length_lt_of_front hfront hne

/-! ## The message -/

def RegisterProcessManagerMsg.asCStrings (msg : RegisterProcessManagerMsg) :
    RegisterProcessManagerMsg :=
  { msg with
    hostname := cstring msg.hostname
    applications := msg.applications.map Application.asCStrings }

/-- The directives for the first line. -/
def managerDirectives : List Directive := parseFormat "%d %d %d %s %d %d".toList

theorem blank_managerDirectives : Blank managerDirectives := by decide

theorem scanLine_manager (line : List UInt8) :
    scanLine (some line) "%d %d %d %s %d %d" [256] = scan managerDirectives [256] line := rfl

/-- The number of applications that the first line announces. -/
def announcedApplications (line : List UInt8) : ℕ :=
  match scan managerDirectives [256] line with
  | .ok values =>
      match values[5]? with
      | some (Arg.int count) => count.toNat
      | _ => 0
  | .error _ => 0

/-- A text with a first line that has all fields and with all lines that it announces behind it,
each of which has all fields. All strings fit. -/
def ManagerScanned (text : List UInt8) : Prop :=
  match linesOf text with
  | [] => False
  | first :: rest =>
      (¬ Overlong managerDirectives [256] first ∧ HasFields managerDirectives first) ∧
        Scannable (announcedApplications first) rest ∧
          ∀ line ∈ rest.take (announcedApplications first), HasFields applicationDirectives line

/-- The message that the values of the lines are stored to. -/
def managerOf (malloc : ℕ → Garbage) (values : List Arg) (all : List (List Arg)) :
    RegisterProcessManagerMsg where
  pid := (malloc 0).intAt values 2
  hostname := (malloc 0).strAt values 3
  jobIndex := (malloc 0).intAt values 4
  applicationCount := (malloc 0).intAt values 5
  applications := applicationsOf malloc 0 all

/-- The message, without the frame that `strtok` has changed. -/
def decodeManager (frame : Frame) (malloc : ℕ → Garbage) :
    Except Fault RegisterProcessManagerMsg :=
  (deserializeRegisterProcessManagerMsg malloc frame).map Prod.fst

theorem decodeManager_eq {frame : Frame} (hnul : 0 ∈ frame.bytes) (malloc : ℕ → Garbage) :
    decodeManager frame malloc =
      scanLine (linesOf (cstring frame.bytes)).head? "%d %d %d %s %d %d" [256] >>= fun values =>
        (scanLines ((malloc 0).intAt values 5).toNat (linesOf (cstring frame.bytes)).tail).map
          (managerOf malloc values) := by
  obtain ⟨buffer, cursor, hstrtok, hnul', htail⟩ := @strtok_lines frame 0 hnul
  rw [List.drop_zero] at hstrtok htail
  rw [decodeManager, deserializeRegisterProcessManagerMsg, hstrtok]
  simp only [bind, Except.bind]
  cases scanLine (linesOf (cstring frame.bytes)).head? "%d %d %d %s %d %d" [256] with
  | error fault => rfl
  | ok values =>
      obtain ⟨out, hout⟩ := deserializeApplications_eq ((malloc 0).intAt values 5).toNat 0 hnul'
      simp only [hout, htail]
      cases scanLines ((malloc 0).intAt values 5).toNat (linesOf (cstring frame.bytes)).tail with
      | error fault => rfl
      | ok all => rfl

theorem announcedApplications_eq {first : List UInt8} {values : List Arg}
    (hscan : scan managerDirectives [256] first = .ok values)
    (hvalues : values.map Arg.directive = conversions managerDirectives) (malloc : Garbage) :
    (malloc.intAt values 5).toNat = announcedApplications first := by
  have hint : (values.map Arg.directive)[5]? = some .int := by rw [hvalues]; rfl
  rw [List.getElem?_map, Option.map_eq_some_iff] at hint
  obtain ⟨arg, harg, hint⟩ := hint
  cases arg with
  | int count => simp only [announcedApplications, hscan, Garbage.intAt, harg]
  | str s => exact absurd hint (by simp [Arg.directive])

theorem managerOf_congr {values : List Arg} {all : List (List Arg)}
    (hvalues : values.map Arg.directive = conversions managerDirectives)
    (hall : ∀ values ∈ all, values.map Arg.directive = conversions applicationDirectives)
    (malloc malloc' : ℕ → Garbage) :
    managerOf malloc values all = managerOf malloc' values all := by
  rw [managerOf, intAt_congr hvalues rfl (malloc 0) (malloc' 0),
    intAt_congr hvalues rfl (malloc 0) (malloc' 0), intAt_congr hvalues rfl (malloc 0) (malloc' 0),
    strAt_congr hvalues rfl (malloc 0) (malloc' 0), applicationsOf_congr hall 0 malloc malloc']
  rfl

section

variable {frame : Frame} {first : List UInt8} {rest : List (List UInt8)} {values : List Arg}
  (hdecode : ∀ malloc, decodeManager frame malloc =
    (scanLines ((malloc 0).intAt values 5).toNat rest).map (managerOf malloc values))

include hdecode

/-- Without the number of applications the decoder takes it from the memory. -/
theorem not_deterministic_of_missing (hle : values.length ≤ 5) :
    ¬ Deterministic RegisterProcessManagerMsg.asCStrings (decodeManager frame) := by
  intro h
  have heq := (h (fun _ => zeroGarbage) (fun _ => oneGarbage)).2
  have hzero : zeroGarbage.intAt values 5 = 0 := intAt_of_length_le hle _
  have hone : oneGarbage.intAt values 5 = 1 := intAt_of_length_le hle _
  rw [hdecode, hdecode, hzero, hone] at heq
  cases hscan : scanLines (1 : UInt32).toNat rest with
  | error fault =>
      rw [hscan] at heq
      exact absurd heq (by simp [scanLines, Except.map])
  | ok all =>
      rw [hscan] at heq
      have hcount := congrArg RegisterProcessManagerMsg.applicationCount (Except.ok.inj heq)
      change zeroGarbage.intAt values 5 = oneGarbage.intAt values 5 at hcount
      exact absurd hcount (intAt_ne hle)

theorem deterministic_iff_of_complete (hscan : scan managerDirectives [256] first = .ok values)
    (hvalues : values.map Arg.directive = conversions managerDirectives) :
    Deterministic RegisterProcessManagerMsg.asCStrings (decodeManager frame) ↔
      Scannable (announcedApplications first) rest ∧
        ∀ line ∈ rest.take (announcedApplications first), HasFields applicationDirectives line := by
  have hlines : ∀ malloc, decodeManager frame malloc =
      (scanLines (announcedApplications first) rest).map (managerOf malloc values) := by
    intro malloc
    rw [hdecode, announcedApplications_eq hscan hvalues]
  by_cases hscannable : Scannable (announcedApplications first) rest
  · obtain ⟨all, hall, hfronts, hfields⟩ := scanLines_of_scannable hscannable
    rw [and_iff_right hscannable, hfields]
    constructor
    · intro h
      have heq := (h (fun _ => zeroGarbage) (fun _ => oneGarbage)).2
      rw [hlines, hlines, hall] at heq
      apply complete_of_applicationsOf_eq hfronts 0
      exact congrArg RegisterProcessManagerMsg.applications (Except.ok.inj heq)
    · intro hcomplete malloc malloc'
      rw [hlines, hlines, hall]
      refine ⟨trivial, ?_⟩
      simp only [Except.map, managerOf_congr hvalues hcomplete malloc malloc']
  · refine iff_of_false ?_ fun h => hscannable h.1
    intro h
    have hdefined := (h (fun _ => zeroGarbage) (fun _ => zeroGarbage)).1
    rw [hlines] at hdefined
    apply scanLines_of_not_scannable hscannable
    cases hresult : scanLines (announcedApplications first) rest with
    | error fault =>
        rw [hresult] at hdefined
        exact hdefined
    | ok all => trivial

end

theorem registerProcessManager_deterministic_iff {frame : Frame} (hnul : 0 ∈ frame.bytes) :
    Deterministic RegisterProcessManagerMsg.asCStrings (decodeManager frame) ↔
      ManagerScanned (cstring frame.bytes) := by
  have hdecode := decodeManager_eq hnul
  rw [ManagerScanned]
  cases hlines : linesOf (cstring frame.bytes) with
  | nil =>
      refine iff_of_false ?_ id
      intro h
      have hdefined := (h (fun _ => zeroGarbage) (fun _ => zeroGarbage)).1
      rw [hdecode, hlines] at hdefined
      exact absurd hdefined (by simp [scanLine, error_bind, Defined])
  | cons first rest =>
      simp only [hlines, List.head?_cons, List.tail_cons, scanLine_manager] at hdecode
      by_cases hlong : Overlong managerDirectives [256] first
      · refine iff_of_false ?_ fun h => h.1.1 hlong
        intro h
        have hdefined := (h (fun _ => zeroGarbage) (fun _ => zeroGarbage)).1
        rw [hdecode, scan_of_overlong blank_managerDirectives hlong] at hdefined
        exact absurd hdefined (by simp [error_bind, Defined])
      · obtain ⟨values, hscan, hfront, hfields⟩ :=
          scan_of_not_overlong blank_managerDirectives hlong
        have hvalues : ∀ malloc, decodeManager frame malloc =
            (scanLines ((malloc 0).intAt values 5).toNat rest).map (managerOf malloc values) := by
          intro malloc
          rw [hdecode, hscan]
          rfl
        simp only [and_iff_right hlong, hfields]
        by_cases hcomplete : values.map Arg.directive = conversions managerDirectives
        · rw [deterministic_iff_of_complete hvalues hscan hcomplete]
          exact (and_iff_right hcomplete).symm
        · have hlt := length_lt_of_front hfront hcomplete
          refine ⟨fun h => absurd h ?_, fun h => absurd h.1 hcomplete⟩
          exact not_deterministic_of_missing hvalues (Nat.le_of_lt_succ hlt)

/-! ## All decoders -/

/-- The functions `dynpm_deserialize_*`. -/
inductive Decoder where
  | header
  | registerConnection
  | deregisterConnection
  | resourceOffer
  | createTbon
  | readyTbon
  | readyDynamicPm
  | processesDone
  | registerProcessManager
  | deregisterProcessManager
  | allocationRequest
  | reallocationStart
  | reallocationComplete
  | dynamicPmLaunch
  | dynamicIoOut
  | reportProcessData
  deriving DecidableEq

/-- The decoder is defined, and what it returns for the frame does not depend on what the memory
held, where strings are compared as C strings. -/
def Decoder.DependsOnFrame (frame : Frame) : Decoder → Prop
  | .header => Deterministic id (deserializeHeader · frame)
  | .registerConnection =>
      Deterministic RegisterConnectionMsg.asCStrings (deserializeRegisterConnectionMsg · frame)
  | .deregisterConnection =>
      Deterministic DeregisterConnectionMsg.asCStrings
        (deserializeDeregisterConnectionMsg · frame)
  | .resourceOffer => Deterministic id (deserializeResourceOfferMsg · frame)
  | .createTbon => Deterministic CreateTbonMsg.asCStrings (deserializeCreateTbonMsg · frame)
  | .readyTbon => Deterministic id (deserializeReadyTbonMsg · frame)
  | .readyDynamicPm => Deterministic id (deserializeReadyDynamicPmMsg · frame)
  | .processesDone => Deterministic id (deserializeProcessesDoneMsg · frame)
  | .registerProcessManager =>
      Deterministic RegisterProcessManagerMsg.asCStrings fun malloc =>
        (deserializeRegisterProcessManagerMsg malloc frame).map Prod.fst
  | .deregisterProcessManager =>
      Deterministic DeregisterProcessManagerMsg.asCStrings
        (deserializeDeregisterProcessManagerMsg · frame)
  | .allocationRequest => Deterministic id (deserializeAllocationRequestMsg · frame)
  | .reallocationStart =>
      Deterministic ReallocationStartMsg.asCStrings (deserializeReallocationStartMsg · frame)
  | .reallocationComplete =>
      Deterministic ReallocationCompleteMsg.asCStrings (deserializeReallocationCompleteMsg · frame)
  | .dynamicPmLaunch => Deterministic id (deserializeDynamicPmLaunchMsg · frame)
  | .dynamicIoOut => Deterministic DynamicIoOutMsg.asCStrings (deserializeDynamicIoOutMsg · frame)
  | .reportProcessData => Deterministic id (deserializeReportProcessDataMsg · frame)

/-- The decoder finds all its fields in the text and has room for all strings, or it fails its
assertion. The times of a resource offer are never found, since only their low halves are read. -/
def Decoder.FindsFields (text : List UInt8) : Decoder → Prop
  | .header => Scanned "%d %d" [] text
  | .registerConnection => Scanned "%d %d %d %s" [256] text
  | .deregisterConnection => Scanned "%d %d %d %s %d" [256] text
  | .resourceOffer => False
  | .createTbon => Scanned "%d %d %d %d %d %s" [256] text
  | .readyTbon | .readyDynamicPm | .processesDone => Scanned "%d %d %d %d %d" [] text
  | .registerProcessManager => ManagerScanned text
  | .deregisterProcessManager => Scanned "%d %d %d %s %d" [256] text
  | .allocationRequest => Scanned "%d %d %d %d %d %d " [] text
  | .reallocationStart => Scanned "%d %d %d %d %d %d %s %d %s %d %s" [1024, 1024, 1024] text
  | .reallocationComplete => Scanned "%d %d %d %d %d %d %s %d" [256] text
  | .dynamicPmLaunch => ScannedOrAsserted "%d %d %d %d %d" [] 4 text
  | .dynamicIoOut => ScannedOrAsserted "%d %d %d %s %d " [256] 4 text
  | .reportProcessData => ScannedOrAsserted "%d %d %d %d %d %d %d" [] 6 text

/-- Decoding a frame that contains a NUL is defined and depends on the frame only if and only if the
decoder finds all its fields and has room for all strings, or fails its assertion. -/
theorem decoding_depends_on_frame_iff (decoder : Decoder) (frame : Frame)
    (hnul : 0 ∈ frame.bytes) :
    decoder.DependsOnFrame frame ↔ decoder.FindsFields (cstring frame.bytes) := by
  cases decoder with
  | header => exact header_deterministic_iff hnul
  | registerConnection => exact registerConnection_deterministic_iff hnul
  | deregisterConnection => exact deregisterConnection_deterministic_iff hnul
  | resourceOffer => exact iff_of_false (resourceOffer_not_deterministic hnul) id
  | createTbon => exact createTbon_deterministic_iff hnul
  | readyTbon => exact ready_deterministic_iff hnul
  | readyDynamicPm => exact ready_deterministic_iff hnul
  | processesDone => exact ready_deterministic_iff hnul
  | registerProcessManager => exact registerProcessManager_deterministic_iff hnul
  | deregisterProcessManager => exact deregisterProcessManager_deterministic_iff hnul
  | allocationRequest => exact allocationRequest_deterministic_iff hnul
  | reallocationStart => exact reallocationStart_deterministic_iff hnul
  | reallocationComplete => exact reallocationComplete_deterministic_iff hnul
  | dynamicPmLaunch => exact dynamicPmLaunch_deterministic_iff hnul
  | dynamicIoOut => exact dynamicIoOut_deterministic_iff hnul
  | reportProcessData => exact reportProcessData_deterministic_iff hnul

/-- The text "4 1" in a frame of zeros. -/
def headerFrame : Frame :=
  ⟨[52, 32, 49] ++ List.replicate (maxMessageSize - 3) 0, by
    rw [List.length_append, List.length_replicate]
    rfl⟩

theorem headerFrame_depends_on_frame :
    0 ∈ headerFrame.bytes ∧ Decoder.header.FindsFields (cstring headerFrame.bytes) ∧
      Decoder.header.DependsOnFrame headerFrame := by
  have hnul : 0 ∈ headerFrame.bytes :=
    List.mem_append_right _ (List.mem_replicate.mpr ⟨by decide, rfl⟩)
  have hne : ∀ b ∈ ([52, 32, 49] : List UInt8), b ≠ 0 := by simp
  have htext : cstring headerFrame.bytes = [52, 32, 49] :=
    cstring_of_forall_ne hne (List.replicate (maxMessageSize - 4) 0)
  have hfields : Decoder.header.FindsFields (cstring headerFrame.bytes) := by
    rw [htext]
    exact ⟨not_overlong_of_no_str (by decide) _ _, trivial⟩
  exact ⟨hnul, hfields, (decoding_depends_on_frame_iff .header headerFrame hnul).mpr hfields⟩

/-- In a frame of zeros no field is found, and the type of the message is what the memory held. -/
theorem zeroFrame_depends_on_memory :
    0 ∈ zeroFrame.bytes ∧ deserializeHeader zeroGarbage zeroFrame = .ok ⟨0, 0⟩ ∧
      deserializeHeader oneGarbage zeroFrame = .ok ⟨1, 1⟩ ∧
      ¬ Decoder.header.DependsOnFrame zeroFrame := by
  have hnul : 0 ∈ zeroFrame.bytes := List.mem_replicate.mpr ⟨by decide, rfl⟩
  have htext : cstring zeroFrame.bytes = [] := by
    simp [zeroFrame, cstring]
  have hdecode : ∀ malloc, deserializeHeader malloc zeroFrame =
      .ok ⟨malloc.int 0, malloc.int 1⟩ := by
    intro malloc
    rw [deserializeHeader, sscanf_eq hnul, htext]
    rfl
  refine ⟨hnul, hdecode zeroGarbage, hdecode oneGarbage, ?_⟩
  intro h
  have heq := (h zeroGarbage oneGarbage).2
  simp only [hdecode] at heq
  exact absurd (congrArg Header.messageType (Except.ok.inj heq)) (by decide)

end Dynpm.Protocol
