import Dynpm.Verification.Protocol.Capacities
import Dynpm.Verification.Protocol.Determinism

/-! # Fields that a round trip loses

Two kinds of fields are not carried by their conversions. `%d` prints and stores half of a
`time_t`, so that the other half comes from the memory of the receiver. `%s` prints nothing for an
empty string and skips blanks, so that the conversions behind it shift by one field.
-/

namespace Dynpm.Protocol

open Library Library.Stdio

/-! ## Times -/

/-- A time keeps its high half exactly when the memory of the receiver held it. -/
theorem timeOfHalves_eq_iff (time : UInt64) (high : UInt32) :
    timeOfHalves time.toUInt32 high = time ↔ time.toNat / 2 ^ 32 = high.toNat := by
  have htime := time.toNat_lt
  have hhigh := high.toNat_lt
  rw [← UInt64.toNat_inj, timeOfHalves, UInt64.toNat_ofNat', UInt64.toNat_toUInt32]
  omega

/-- The fields of a resource offer that are printed. -/
def ResourceOfferMsg.args (msg : ResourceOfferMsg) : List Arg :=
  [.int msg.applicationIndex, .int msg.partitionIndex, .int msg.nodeCount,
    .int msg.creationTime.toUInt32, .int msg.endTime.toUInt32]

/-- An offer always fits its frame, and the values that are scanned are those printed. -/
theorem ResourceOfferMsg.scanned (malloc : Garbage) (buffer : Frame) (header : Header)
    (msg : ResourceOfferMsg) :
    ∃ out, serializeResourceOfferMsg header msg buffer = .ok out ∧
      out.sscanf "%d %d %d %d %d %d %d" [] = .ok (header.args ++ msg.args) := by
  have htext : resourceOfferText header msg = line (header.args ++ msg.args) ++ [] :=
    sprintf_line [] rfl
  have hnumbers : ∀ arg ∈ header.args ++ msg.args, arg.directive = .int := by
    simp [Header.args, ResourceOfferMsg.args, Arg.directive]
  have hlen : (resourceOfferText header msg).length < maxMessageSize := by
    have hline := length_line_le (header.args ++ msg.args) hnumbers
    rw [htext, List.append_nil]
    exact Nat.lt_of_le_of_lt hline (by simp [Header.args, ResourceOfferMsg.args, maxMessageSize])
  obtain ⟨out, hputs, _, hscan⟩ := text_round_trip malloc buffer header msg.args []
    "%d %d %d %d %d %d %d" [] [] htext hlen (by simp) trivial rfl scan_nil
  exact ⟨out, hputs, hscan⟩

/-- An offer is received as it was sent if and only if the memory of the receiver happened to hold
the high halves of both times. -/
theorem resource_offer_round_trip_iff (malloc : Garbage) (buffer : Frame) (header : Header)
    (msg : ResourceOfferMsg) :
    (∃ out, serializeResourceOfferMsg header msg buffer = .ok out ∧
      deserializeResourceOfferMsg malloc out = .ok msg) ↔
    msg.creationTime.toNat / 2 ^ 32 = (malloc.int 7).toNat ∧
      msg.endTime.toNat / 2 ^ 32 = (malloc.int 8).toNat := by
  obtain ⟨out, hout, hscan⟩ := ResourceOfferMsg.scanned malloc buffer header msg
  have hreceived : deserializeResourceOfferMsg malloc out = .ok { msg with
      creationTime := timeOfHalves msg.creationTime.toUInt32 (malloc.int 7)
      endTime := timeOfHalves msg.endTime.toUInt32 (malloc.int 8) } := by
    rw [deserializeResourceOfferMsg, hscan]
    rfl
  rw [← timeOfHalves_eq_iff, ← timeOfHalves_eq_iff]
  constructor
  · rintro ⟨out', hout', heq⟩
    obtain rfl := Except.ok.inj (hout.symm.trans hout')
    have hmsg := Except.ok.inj (hreceived.symm.trans heq)
    exact ⟨congrArg ResourceOfferMsg.creationTime hmsg, congrArg ResourceOfferMsg.endTime hmsg⟩
  · rintro ⟨hcreation, hend⟩
    refine ⟨out, hout, ?_⟩
    rw [hreceived, hcreation, hend]

/-- An offer that ends in the year 2106, behind the range of 32 bits. -/
def lateOffer : ResourceOfferMsg := ⟨0, 1, 2, 1700000000, 4294967296⟩

/-- On zeroed memory the end of the offer is received as the beginning of 1970. -/
theorem lateOffer_not_received :
    ∃ out, serializeResourceOfferMsg ⟨2, 4⟩ lateOffer zeroFrame = .ok out ∧
      deserializeResourceOfferMsg zeroGarbage out = .ok { lateOffer with endTime := 0 } ∧
      deserializeResourceOfferMsg zeroGarbage out ≠ .ok lateOffer := by
  obtain ⟨out, hout, hscan⟩ := lateOffer.scanned zeroGarbage zeroFrame ⟨2, 4⟩
  have hreceived : deserializeResourceOfferMsg zeroGarbage out =
      .ok { lateOffer with endTime := 0 } := by
    rw [deserializeResourceOfferMsg, hscan]
    rfl
  refine ⟨out, hout, hreceived, ?_⟩
  rw [hreceived]
  intro heq
  exact absurd (congrArg ResourceOfferMsg.endTime (Except.ok.inj heq)) (by decide)

/-! ## Empty node lists -/

section

variable {front : List Arg} {capacities buffers : List ℕ} {capacity : ℕ} {rest : List Directive}

/-- What `%s` behind a line of fields does with the next token, wherever this token stands. -/
theorem scan_line_str (hfits : Fits front capacities)
    (hbuffers : remaining front capacities = capacity :: buffers) {text token more : List UInt8}
    (htext : Separated text) (hskip : skipSpace text = token ++ more) (htoken : Token token)
    (hmore : Separated more) :
    scan (lineDirectives front ++ .byte 32 :: .str :: rest) capacities (line front ++ text) =
      if token.length < capacity then
        (scan rest buffers more).map (front ++ .str token :: ·)
      else .error .outOfBounds := by
  have hblank : scan (.byte 32 :: .str :: rest) (capacity :: buffers) text =
      scan (.str :: rest) (capacity :: buffers) (skipSpace text) := by
    cases text with
    | nil => rfl
    | cons b text => rfl
  rw [scan_line_append hfits _ htext, hbuffers, hblank, hskip, scan, scanStr_token htoken hmore]
  dsimp only
  split
  · cases scan rest buffers more with
    | error fault => rfl
    | ok values => rfl
  · rfl

theorem token_printInt (v : UInt32) : Token (printInt v) := by
  refine ⟨printInt_ne_nil v, ?_⟩
  intro b hb
  exact ⟨text_ne_zero (.int v) hb, isSpace_of_mem_printInt hb⟩

/-- A node list that is received as it was sent is not empty and fits its buffer: the number behind
an empty one is read in its place. -/
theorem nodes_of_received (malloc : Garbage) (hfits : Fits front capacities)
    (hbuffers : remaining front capacities = capacity :: buffers) {nodes : List UInt8}
    (hnodes : nodes = [] ∨ Token nodes) {v : UInt32} {args values : List Arg} {tail : List UInt8}
    (htail : Separated tail) {frame : Frame}
    (hholds : frame.Holds (line (front ++ .str nodes :: .int v :: args) ++ tail))
    (hne : front ≠ []) {format : String}
    (hformat : parseFormat format.toList = lineDirectives front ++ .byte 32 :: .str :: rest)
    (hscan : frame.sscanf format capacities = .ok values)
    (hreceived : cstring (malloc.strAt values front.length) = nodes) :
    Token nodes ∧ nodes.length < capacity := by
  rw [hholds.sscanf_append hne hformat] at hscan
  have hseparated := separated_blankFields (.str nodes :: .int v :: args) htail
  -- The token that `%s` finds, which is the number where the list is empty.
  obtain ⟨token, more, htoken, hmore, hskip⟩ : ∃ token more, Token token ∧ Separated more ∧
      skipSpace (blankFields (.str nodes :: .int v :: args) ++ tail) = token ++ more := by
    rcases hnodes with rfl | hnodes
    · refine ⟨printInt v, blankFields args ++ tail, token_printInt v,
        separated_blankFields args htail, ?_⟩
      rw [blankFields_cons_append, blankFields_cons_append]
      exact skipSpace_append (printInt_ne_nil v) (fun b hb => isSpace_of_mem_printInt hb) _
    · refine ⟨nodes, blankFields (.int v :: args) ++ tail, hnodes,
        separated_blankFields _ htail, ?_⟩
      have htext : (Arg.str nodes).text = nodes := cstring_eq_self fun b hb => (hnodes.2 b hb).1
      rw [blankFields_cons_append, htext]
      exact skipSpace_append hnodes.1 (fun b hb => (hnodes.2 b hb).2) _
  rw [scan_line_str hfits hbuffers hseparated hskip htoken hmore] at hscan
  split at hscan
  · next hlen =>
      obtain ⟨others, -, rfl⟩ : ∃ others, scan rest buffers more = .ok others ∧
          front ++ .str token :: others = values := by
        cases hrest : scan rest buffers more with
        | error fault => simp [hrest, Except.map] at hscan
        | ok others => exact ⟨others, rfl, by simpa [hrest, Except.map] using hscan⟩
      have hread : malloc.strAt (front ++ .str token :: others) front.length = token := by
        simp [Garbage.strAt]
      rw [hread, cstring_eq_self fun b hb => (htoken.2 b hb).1] at hreceived
      exact hreceived ▸ ⟨htoken, hlen⟩
  · exact absurd hscan (by simp)

end

namespace TextMessage

/-- The node lists of a reallocation with their counts. -/
def nodeLists : TextMessage → List (UInt32 × List UInt8)
  | .reallocationStart msg =>
      [(msg.currentNodeCount, msg.currentNodes), (msg.deltaNodeCount, msg.deltaNodes),
        (msg.updatedNodeCount, msg.updatedNodes)]
  | .reallocationComplete msg => [(msg.nodeCount, msg.nodes)]
  | .registerConnection _ | .deregisterConnection _ | .createTbon _ | .readyTbon _
  | .readyDynamicPm _ | .processesDone _ | .deregisterProcessManager _ | .allocationRequest _ => []

/-- A message whose string fields are compared as C strings. -/
def asCStrings : TextMessage → TextMessage
  | .registerConnection msg => .registerConnection msg.asCStrings
  | .deregisterConnection msg => .deregisterConnection msg.asCStrings
  | .createTbon msg => .createTbon msg.asCStrings
  | .deregisterProcessManager msg => .deregisterProcessManager msg.asCStrings
  | .reallocationStart msg => .reallocationStart msg.asCStrings
  | .reallocationComplete msg => .reallocationComplete msg.asCStrings
  | .readyTbon msg => .readyTbon msg
  | .readyDynamicPm msg => .readyDynamicPm msg
  | .processesDone msg => .processesDone msg
  | .allocationRequest msg => .allocationRequest msg

/-- The message is the start of a reallocation of which the first two node lists are not empty and
fit their buffers, and the memory for the third one held an empty string. -/
def OnlyLastListEmpty (malloc : Garbage) : TextMessage → Prop
  | .reallocationStart msg =>
      (msg.currentNodes ≠ [] ∧ msg.currentNodes.length < 1024) ∧
        (msg.deltaNodes ≠ [] ∧ msg.deltaNodes.length < 1024) ∧ cstring (malloc.str 10) = []
  | _ => False

/-- A message that has been serialised is the text of its frame. -/
theorem holds_of_serialize {header : Header} {msg : TextMessage} {buffer out : Frame}
    (h : msg.serialize header buffer = .ok out) : out.Holds (msg.text header) := by
  rw [msg.serialize_eq] at h
  refine Frame.holds_of_puts ?_ h
  rw [msg.text_eq]
  exact fun b hb => line_blanks_ne_zero msg.isSpace_of_mem_lineEnd hb

end TextMessage

section

variable {header : Header} {malloc : Garbage} {buffer : Frame}

namespace ReallocationStartMsg

variable {msg : ReallocationStartMsg}

/-- The fields up to the count of the current nodes, of the delta and of the updated nodes. -/
def currentFront (header : Header) (msg : ReallocationStartMsg) : List Arg :=
  header.args ++ [.int msg.applicationIndex, .int msg.partitionIndex, .int msg.type,
    .int msg.currentNodeCount]

def deltaFront (header : Header) (msg : ReallocationStartMsg) : List Arg :=
  msg.currentFront header ++ [.str msg.currentNodes, .int msg.deltaNodeCount]

def updatedFront (header : Header) (msg : ReallocationStartMsg) : List Arg :=
  msg.deltaFront header ++ [.str msg.deltaNodes, .int msg.updatedNodeCount]

theorem text_eq (header : Header) (msg : ReallocationStartMsg) :
    reallocationStartText header msg =
      line (msg.updatedFront header ++ [.str msg.updatedNodes]) ++ [10] := sprintf_line [10] rfl

/-- The conversions of the deserialiser behind the current nodes, and behind the delta. -/
def deltaDirectives : List Directive :=
  [.byte 32, .int, .byte 32, .str, .byte 32, .int, .byte 32, .str]

def updatedDirectives : List Directive := [.byte 32, .int, .byte 32, .str]

theorem format_current (header : Header) (msg : ReallocationStartMsg) :
    parseFormat "%d %d %d %d %d %d %s %d %s %d %s".toList =
      lineDirectives (msg.currentFront header) ++ .byte 32 :: .str :: deltaDirectives := rfl

theorem format_delta (header : Header) (msg : ReallocationStartMsg) :
    parseFormat "%d %d %d %d %d %d %s %d %s %d %s".toList =
      lineDirectives (msg.deltaFront header) ++ .byte 32 :: .str :: updatedDirectives := rfl

theorem format_updated (header : Header) (msg : ReallocationStartMsg) :
    parseFormat "%d %d %d %d %d %d %s %d %s %d %s".toList =
      lineDirectives (msg.updatedFront header) ++ [.byte 32, .str] := rfl

/-- Where only the last list is empty, the scan ends in front of it. -/
theorem sscanf_updatedFront (hcurrent : Token msg.currentNodes ∧ msg.currentNodes.length < 1024)
    (hdelta : Token msg.deltaNodes ∧ msg.deltaNodes.length < 1024)
    (hupdated : msg.updatedNodes = []) {frame : Frame}
    (hholds : frame.Holds (reallocationStartText header msg)) :
    frame.sscanf "%d %d %d %d %d %d %s %d %s %d %s" [1024, 1024, 1024] =
      .ok (msg.updatedFront header) := by
  have hfits : Fits (msg.updatedFront header) [1024, 1024, 1024] :=
    ⟨hcurrent.1, hcurrent.2, hdelta.1, hdelta.2, trivial⟩
  have hbuffers : remaining (msg.updatedFront header) [1024, 1024, 1024] = [1024] := rfl
  have hend : scan [.byte 32, .str] [1024] (blankFields [.str []] ++ [10]) = .ok [] := by
    decide +kernel
  rw [msg.text_eq header] at hholds
  rw [hholds.sscanf_append (List.cons_ne_nil _ _) (msg.format_updated header),
    scan_line_append hfits _ (separated_blankFields _ (separated_of_isSpace (by simp [isSpace]))),
    hbuffers, hupdated, hend]
  exact congrArg Except.ok (List.append_nil _)

/-- Its text then fits every frame. -/
theorem length_text_lt (hcurrent : msg.currentNodes.length < 1024)
    (hdelta : msg.deltaNodes.length < 1024) (hupdated : msg.updatedNodes = []) :
    (reallocationStartText header msg).length < maxMessageSize := by
  have hstring : ∀ s : List UInt8, (cstring s).length ≤ s.length :=
    fun s => (List.takeWhile_sublist _).length_le
  have hcurrent' := hstring msg.currentNodes
  have hdelta' := hstring msg.deltaNodes
  have hnumber := length_printInt_le
  have hsource := hnumber header.sourceType
  have htype := hnumber header.messageType
  have happlication := hnumber msg.applicationIndex
  have hpartition := hnumber msg.partitionIndex
  have hkind := hnumber msg.type
  have hcurrentCount := hnumber msg.currentNodeCount
  have hdeltaCount := hnumber msg.deltaNodeCount
  have hupdatedCount := hnumber msg.updatedNodeCount
  have hnil : (cstring []).length = 0 := rfl
  simp only [text_eq, updatedFront, deltaFront, currentFront, Header.args, line, blankFields,
    Arg.text, hupdated, List.cons_append, List.nil_append, List.append_assoc, List.flatMap_cons,
    List.flatMap_nil, List.length_append, List.length_cons, List.length_nil, hnil, maxMessageSize]
  omega

theorem received_iff (hcurrent : msg.currentNodes = [] ∨ Token msg.currentNodes)
    (hdelta : msg.deltaNodes = [] ∨ Token msg.deltaNodes)
    (hempty : msg.currentNodes = [] ∨ msg.deltaNodes = [] ∨ msg.updatedNodes = []) :
    (∃ out received, serializeReallocationStartMsg header msg buffer = .ok out ∧
      deserializeReallocationStartMsg malloc out = .ok received ∧ received.asCStrings = msg) ↔
    (msg.currentNodes ≠ [] ∧ msg.currentNodes.length < 1024) ∧
      (msg.deltaNodes ≠ [] ∧ msg.deltaNodes.length < 1024) ∧ cstring (malloc.str 10) = [] := by
  have hend : Separated [10] := separated_of_isSpace (by simp [isSpace])
  constructor
  · rintro ⟨out, received, hout, hdecode, heq⟩
    have hholds := @TextMessage.holds_of_serialize header (.reallocationStart msg) _ _ hout
    have hline : out.Holds (line (msg.updatedFront header ++ [.str msg.updatedNodes]) ++ [10]) :=
      msg.text_eq header ▸ hholds
    obtain ⟨values, hscan, hreceived⟩ := bind_eq_ok hdecode
    obtain rfl := Except.ok.inj hreceived
    have hfirst := @nodes_of_received (msg.currentFront header) [1024, 1024, 1024] [1024, 1024]
      1024 deltaDirectives malloc trivial rfl msg.currentNodes hcurrent msg.deltaNodeCount
      [.str msg.deltaNodes, .int msg.updatedNodeCount, .str msg.updatedNodes] values [10] hend out
      hline (List.cons_ne_nil _ _) _ (msg.format_current header) hscan
      (congrArg currentNodes heq)
    have hsecond := @nodes_of_received (msg.deltaFront header) [1024, 1024, 1024] [1024]
      1024 updatedDirectives malloc ⟨hfirst.1, hfirst.2, trivial⟩ rfl msg.deltaNodes hdelta
      msg.updatedNodeCount [.str msg.updatedNodes] values [10] hend out hline
      (List.cons_ne_nil _ _) _ (msg.format_delta header) hscan (congrArg deltaNodes heq)
    have hupdated : msg.updatedNodes = [] := by
      rcases hempty with h | h | h
      · exact absurd h hfirst.1.1
      · exact absurd h hsecond.1.1
      · exact h
    rw [sscanf_updatedFront hfirst hsecond hupdated hholds] at hscan
    obtain rfl := Except.ok.inj hscan
    exact ⟨⟨hfirst.1.1, hfirst.2⟩, ⟨hsecond.1.1, hsecond.2⟩,
      (congrArg updatedNodes heq).trans hupdated⟩
  · rintro ⟨⟨hcurrent', hcurrentLen⟩, ⟨hdelta', hdeltaLen⟩, hmalloc⟩
    have hfirst := hcurrent.resolve_left hcurrent'
    have hsecond := hdelta.resolve_left hdelta'
    have hupdated := (hempty.resolve_left hcurrent').resolve_left hdelta'
    have hlen : (reallocationStartText header msg).length < maxMessageSize :=
      length_text_lt hcurrentLen hdeltaLen hupdated
    obtain ⟨out, hout, hholds⟩ :=
      TextMessage.serialize_holds header (.reallocationStart msg) buffer hlen
    have hscan := sscanf_updatedFront ⟨hfirst, hcurrentLen⟩ ⟨hsecond, hdeltaLen⟩ hupdated hholds
    refine ⟨out, { msg with updatedNodes := malloc.str 10 }, hout, ?_, ?_⟩
    · rw [deserializeReallocationStartMsg, hscan]
      rfl
    · rw [asCStrings, hmalloc, ← hupdated]
      dsimp only
      rw [cstring_eq_self fun b hb => (hfirst.2 b hb).1,
        cstring_eq_self fun b hb => (hsecond.2 b hb).1]

end ReallocationStartMsg

namespace ReallocationCompleteMsg

variable {msg : ReallocationCompleteMsg}

/-- The fields up to the count of the nodes. -/
def nodesFront (header : Header) (msg : ReallocationCompleteMsg) : List Arg :=
  header.args ++ [.int msg.applicationIndex, .int msg.partitionIndex, .int msg.type,
    .int msg.nodeCount]

theorem text_eq (header : Header) (msg : ReallocationCompleteMsg) :
    reallocationCompleteText header msg =
      line (msg.nodesFront header ++ [.str msg.nodes, .int msg.statusCode]) ++ [10] :=
  sprintf_line [10] rfl

theorem format_nodes (header : Header) (msg : ReallocationCompleteMsg) :
    parseFormat "%d %d %d %d %d %d %s %d".toList =
      lineDirectives (msg.nodesFront header) ++ .byte 32 :: .str :: [.byte 32, .int] := rfl

/-- The status is read in the place of an empty list. -/
theorem not_received (hempty : msg.nodes = []) :
    ¬ ∃ out received, serializeReallocationCompleteMsg header msg buffer = .ok out ∧
      deserializeReallocationCompleteMsg malloc out = .ok received ∧
      received.asCStrings = msg := by
  rintro ⟨out, received, hout, hdecode, heq⟩
  have hholds := @TextMessage.holds_of_serialize header (.reallocationComplete msg) _ _ hout
  have hline : out.Holds
      (line (msg.nodesFront header ++ [.str msg.nodes, .int msg.statusCode]) ++ [10]) :=
    msg.text_eq header ▸ hholds
  obtain ⟨values, hscan, hreceived⟩ := bind_eq_ok hdecode
  obtain rfl := Except.ok.inj hreceived
  have hnodes := @nodes_of_received (msg.nodesFront header) [256] [] 256 [.byte 32, .int] malloc
    trivial rfl msg.nodes (Or.inl hempty) msg.statusCode [] values [10]
    (separated_of_isSpace (by simp [isSpace])) out hline (List.cons_ne_nil _ _) _
    (msg.format_nodes header) hscan (congrArg ReallocationCompleteMsg.nodes heq)
  exact hnodes.1.1 hempty

end ReallocationCompleteMsg

end

/-- Of the reallocations with an empty node list only the start with an empty list of updated nodes
is received, and only where the memory for this list held an empty string. Every other empty list
is received as the number that follows it. -/
theorem reallocation_with_empty_list_received_iff (malloc : Garbage) (buffer : Frame)
    (header : Header) (msg : TextMessage)
    (hlists : ∀ list ∈ msg.nodeLists, list.2 = [] ∧ list.1 = 0 ∨ Token list.2)
    (hempty : ∃ list ∈ msg.nodeLists, list.2 = []) :
    (∃ out received, msg.serialize header buffer = .ok out ∧
      msg.kind.deserialize malloc out = .ok received ∧ received.asCStrings = msg) ↔
    msg.OnlyLastListEmpty malloc := by
  have hlist : ∀ list ∈ msg.nodeLists, list.2 = [] ∨ Token list.2 :=
    fun list h => (hlists list h).imp_left And.left
  cases msg with
  | reallocationStart msg =>
      have hcurrent : msg.currentNodes = [] ∨ Token msg.currentNodes :=
        hlist (msg.currentNodeCount, msg.currentNodes) (by simp [TextMessage.nodeLists])
      have hdelta : msg.deltaNodes = [] ∨ Token msg.deltaNodes :=
        hlist (msg.deltaNodeCount, msg.deltaNodes) (by simp [TextMessage.nodeLists])
      have hany : msg.currentNodes = [] ∨ msg.deltaNodes = [] ∨ msg.updatedNodes = [] := by
        simpa [TextMessage.nodeLists] using hempty
      have hiff := @ReallocationStartMsg.received_iff header malloc buffer msg hcurrent hdelta hany
      simp only [TextMessage.kind, TextKind.deserialize, Functor.map, map_eq_ok_iff]
      constructor
      · rintro ⟨out, _, hout, ⟨received, hreceived, rfl⟩, heq⟩
        exact hiff.mp ⟨out, received, hout, hreceived, TextMessage.reallocationStart.inj heq⟩
      · intro h
        obtain ⟨out, received, hout, hreceived, heq⟩ := hiff.mpr h
        exact ⟨out, _, hout, ⟨received, hreceived, rfl⟩,
          congrArg TextMessage.reallocationStart heq⟩
  | reallocationComplete msg =>
      have hnodes : msg.nodes = [] := by simpa [TextMessage.nodeLists] using hempty
      refine iff_of_false ?_ id
      simp only [TextMessage.kind, TextKind.deserialize, Functor.map, map_eq_ok_iff]
      rintro ⟨out, _, hout, ⟨received, hreceived, rfl⟩, heq⟩
      exact ReallocationCompleteMsg.not_received hnodes
        ⟨out, received, hout, hreceived, TextMessage.reallocationComplete.inj heq⟩
  | _ => exact absurd hempty (by simp [TextMessage.nodeLists])

/-- A reallocation that takes no node away: the list of the delta is empty. -/
def emptyDelta : ReallocationStartMsg := ⟨0, 1, 1, 1, [110, 49], 0, [], 7, [110, 50]⟩

/-- A reallocation without updated nodes. -/
def emptyUpdate : TextMessage := .reallocationStart ⟨0, 1, 1, 1, [110, 49], 1, [110, 50], 0, []⟩

theorem emptyUpdate_received :
    (∀ list ∈ emptyUpdate.nodeLists, list.2 = [] ∧ list.1 = 0 ∨ Token list.2) ∧
      (∃ list ∈ emptyUpdate.nodeLists, list.2 = []) ∧
      ∃ out received, emptyUpdate.serialize ⟨2, 9⟩ zeroFrame = .ok out ∧
        emptyUpdate.kind.deserialize zeroGarbage out = .ok received ∧
        received.asCStrings = emptyUpdate := by
  have hlists : ∀ list ∈ emptyUpdate.nodeLists, list.2 = [] ∧ list.1 = 0 ∨ Token list.2 := by
    decide
  have hempty : ∃ list ∈ emptyUpdate.nodeLists, list.2 = [] := by decide
  refine ⟨hlists, hempty, ?_⟩
  rw [reallocation_with_empty_list_received_iff zeroGarbage zeroFrame ⟨2, 9⟩ _ hlists hempty]
  exact ⟨by decide, by decide, by decide⟩

/-- The count of the updated nodes is received as the delta, and their list as what the memory
held. -/
theorem emptyDelta_not_received :
    (∀ list ∈ (TextMessage.reallocationStart emptyDelta).nodeLists,
      list.2 = [] ∧ list.1 = 0 ∨ Token list.2) ∧
    ∃ out received, serializeReallocationStartMsg ⟨2, 9⟩ emptyDelta zeroFrame = .ok out ∧
      deserializeReallocationStartMsg zeroGarbage out = .ok received ∧
      received = ⟨0, 1, 1, 1, [110, 49], 0, [55], 0, []⟩ ∧ received.asCStrings ≠ emptyDelta := by
  obtain ⟨out, hout, hholds⟩ := TextMessage.serialize_holds ⟨2, 9⟩
    (.reallocationStart emptyDelta) zeroFrame (by decide +kernel)
  have hscan : scan (parseFormat "%d %d %d %d %d %d %s %d %s %d %s".toList) [1024, 1024, 1024]
      (reallocationStartText ⟨2, 9⟩ emptyDelta) =
      .ok [.int 2, .int 9, .int 0, .int 1, .int 1, .int 1, .str [110, 49], .int 0, .str [55]] := by
    decide +kernel
  refine ⟨by decide, out, _, hout, ?_, rfl, by decide⟩
  rw [deserializeReallocationStartMsg, sscanf_eq hholds.nul_mem, hholds.cstring_eq]
  exact congrArg (· >>= _) hscan

end Dynpm.Protocol
