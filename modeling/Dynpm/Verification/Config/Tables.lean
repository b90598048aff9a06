import Dynpm.Model.Config
import Mathlib.Data.List.Count

/-! # Accepted configurations and their tables

A token sequence of the grammar is a sequence of statements, and the parser executes their
actions in order. The tables are allocated by the size statements, while the positions of the
entries are counted from the beginning of the file.
-/

namespace Dynpm.Config

open Library Library.Statements Computability

/-! ## Statements and tokens -/

def Statement.kind : Statement → StatementKind
  | .configuration _ => .configuration
  | .wrapping _ => .wrapping
  | .configurationSize .. => .configurationSize

/-- The tokens of a statement, as the rules of the grammar have them. -/
def Statement.tokens : Statement → List Token
  | .configuration entry =>
      [.stringVal entry.name, .equals, .left, .number entry.port, .comma, .number entry.threads,
        .comma, .stringVal entry.host, .right]
  | .wrapping entry => [.stringVal entry.pluginType, .colon, .stringVal entry.pluginName]
  | .configurationSize processesName processes pluginsName plugins =>
      [.left, .stringVal processesName, .equals, .number processes, .comma,
        .stringVal pluginsName, .equals, .number plugins, .right]

/-- The token sequence can be derived from `configurations`. -/
def Derivable (tokens : List Token) : Prop := tokens.map Token.kind ∈ grammar.language

theorem separable_shape : Separable shape where
  nonempty i := by cases i <;> decide
  not_within i j := by cases i <;> cases j <;> decide

theorem kinds_tokens (statement : Statement) :
    statement.tokens.map Token.kind = shape statement.kind := by
  cases statement <;> rfl

theorem statementOf_tokens (statement : Statement) :
    statementOf statement.tokens = some statement := by
  cases statement <;> rfl

/-- The tokens of a kind. -/
def Kind.Matches (t : Token) : Kind → Prop
  | .number => ∃ value, t = .number value
  | .stringVal => ∃ confString, t = .stringVal confString
  | .equals => t = .equals
  | .left => t = .left
  | .right => t = .right
  | .comma => t = .comma
  | .colon => t = .colon

theorem kind_eq_iff {t : Token} {k : Kind} : t.kind = k ↔ k.Matches t := by
  cases t <;> cases k <;> simp [Token.kind, Kind.Matches]

/-- Tokens of the kinds of a right side are the tokens of a statement. -/
theorem exists_statement {tokens : List Token} {i : StatementKind}
    (h : tokens.map Token.kind = shape i) : ∃ statement : Statement, tokens = statement.tokens := by
  cases i with
  | configuration =>
      simp only [shape, List.map_eq_cons_iff, List.map_eq_nil_iff, kind_eq_iff, Kind.Matches] at h
      obtain ⟨_, _, rfl, ⟨name, rfl⟩, _, _, rfl, rfl, _, _, rfl, rfl, _, _, rfl, ⟨port, rfl⟩,
        _, _, rfl, rfl, _, _, rfl, ⟨threads, rfl⟩, _, _, rfl, rfl, _, _, rfl, ⟨host, rfl⟩,
        _, _, rfl, rfl, rfl⟩ := h
      exact ⟨.configuration ⟨name, port, threads, host⟩, rfl⟩
  | wrapping =>
      simp only [shape, List.map_eq_cons_iff, List.map_eq_nil_iff, kind_eq_iff, Kind.Matches] at h
      obtain ⟨_, _, rfl, ⟨pluginType, rfl⟩, _, _, rfl, rfl, _, _, rfl, ⟨pluginName, rfl⟩, rfl⟩ := h
      exact ⟨.wrapping ⟨pluginType, pluginName⟩, rfl⟩
  | configurationSize =>
      simp only [shape, List.map_eq_cons_iff, List.map_eq_nil_iff, kind_eq_iff, Kind.Matches] at h
      obtain ⟨_, _, rfl, rfl, _, _, rfl, ⟨processesName, rfl⟩, _, _, rfl, rfl,
        _, _, rfl, ⟨processes, rfl⟩, _, _, rfl, rfl, _, _, rfl, ⟨pluginsName, rfl⟩,
        _, _, rfl, rfl, _, _, rfl, ⟨plugins, rfl⟩, _, _, rfl, rfl, rfl⟩ := h
      exact ⟨.configurationSize processesName processes pluginsName plugins, rfl⟩

theorem exists_statements {tokens : List Token} {kinds : List (List Kind)}
    (hkinds : ∀ k ∈ kinds, k ∈ shapes shape) (h : tokens.map Token.kind = kinds.flatten) :
    ∃ statements : List Statement, tokens = statements.flatMap Statement.tokens := by
  induction kinds generalizing tokens with
  | nil => exact ⟨[], by simpa using h⟩
  | cons k kinds ih =>
      rw [List.flatten_cons, List.map_eq_append_iff] at h
      obtain ⟨front, back, rfl, hfront, hback⟩ := h
      obtain ⟨i, rfl⟩ := hkinds k List.mem_cons_self
      obtain ⟨statement, rfl⟩ := exists_statement hfront
      obtain ⟨statements, rfl⟩ := ih (fun k hk => hkinds k (List.mem_cons_of_mem _ hk)) hback
      exact ⟨statement :: statements, rfl⟩

/-- The derivable token sequences are the sequences of statements. -/
theorem derivable_iff {tokens : List Token} :
    Derivable tokens ↔ ∃ statements : List Statement,
      tokens = statements.flatMap Statement.tokens := by
  rw [Derivable, grammar, language_grammar, Language.mem_kstar]
  constructor
  · rintro ⟨kinds, h, hkinds⟩
    exact exists_statements hkinds h
  · rintro ⟨statements, rfl⟩
    refine ⟨statements.map fun statement => shape statement.kind, ?_, ?_⟩
    · rw [List.map_flatMap, List.flatMap_def]
      simp only [kinds_tokens]
    · intro k hk
      obtain ⟨statement, -, rfl⟩ := List.mem_map.mp hk
      exact ⟨statement.kind, rfl⟩

/-- The parser accepts a sequence of statements, provided that their actions succeed. -/
theorem yyparse_statements (s : State) (statements : List Statement) :
    yyparse s ((statements.flatMap Statement.tokens).map .ok) =
      (statements.foldlM Statement.action s).map fun s => (0, s) := by
  have hshapes : ∀ tokens ∈ statements.map Statement.tokens,
      ∃ i, tokens.map Token.kind = shape i := by
    intro tokens htokens
    obtain ⟨statement, -, rfl⟩ := List.mem_map.mp htokens
    exact ⟨statement.kind, kinds_tokens statement⟩
  have haction : ∀ s statement, reduce s (Statement.tokens statement) = statement.action s := by
    intro s statement
    rw [reduce, statementOf_tokens]
  rw [yyparse, List.flatMap_def, parse_statements separable_shape _ hshapes, List.foldlM_map]
  simp only [haction]
  cases statements.foldlM Statement.action s with
  | error e => rfl
  | ok s => rfl

/-! ## Tables -/

section Filled

variable {α : Type}

/-- A table of the given size after the entries were stored in order from the position `first`
on. -/
def filled (first : ℕ) (entries : List α) (size : ℕ) : List (Option α) :=
  (List.replicate first none ++ entries.map some ++ List.replicate size none).take size

theorem length_filled (first : ℕ) (entries : List α) (size : ℕ) :
    (filled first entries size).length = size := by
  simp only [filled, List.length_take, List.length_append, List.length_replicate, List.length_map]
  omega

theorem filled_nil (first size : ℕ) :
    filled first ([] : List α) size = List.replicate size none := by
  simp [filled, List.take_replicate]

theorem filled_all (entries : List α) : filled 0 entries entries.length = entries.map some := by
  simp [filled]

/-- Where the entries fit, they stand between empty entries. -/
theorem filled_eq {first size : ℕ} {entries : List α} (h : first + entries.length ≤ size) :
    filled first entries size = List.replicate first none ++ entries.map some ++
      List.replicate (size - (first + entries.length)) none := by
  rw [filled, List.take_append, List.take_of_length_le (by simpa using h), List.take_replicate,
    List.length_append, List.length_replicate, List.length_map, min_eq_left (by omega)]

theorem storeEntry_filled {first size : ℕ} {entries : List α} (entry : α)
    (h : first + entries.length < size) :
    storeEntry (filled first entries size) (first + entries.length) entry =
      .ok (filled first (entries ++ [entry]) size) := by
  have hlen : (entries ++ [entry]).length = entries.length + 1 := by simp
  have hroom : size - (first + entries.length) =
      size - (first + (entries ++ [entry]).length) + 1 := by omega
  rw [storeEntry, length_filled, if_pos h, filled_eq (by omega), filled_eq (by omega), hroom,
    List.replicate_succ, List.set_append_right _ _ (by simp)]
  simp

theorem storeEntry_filled_full {first size : ℕ} {entries : List α} (entry : α) {position : ℕ}
    (h : ¬ position < size) :
    storeEntry (filled first entries size) position entry = .error (.fault .outOfBounds) := by
  rw [storeEntry, length_filled, if_neg h]

/-- The number of entries stored. -/
theorem countP_filled {first size : ℕ} {entries : List α}
    (h : entries = [] ∨ first + entries.length ≤ size) :
    (filled first entries size).countP Option.isSome = entries.length := by
  rcases h with rfl | h
  · rw [filled_nil, List.countP_replicate]
    rfl
  · rw [filled_eq h, List.countP_append, List.countP_append, List.countP_replicate,
      List.countP_replicate, List.countP_map]
    simp

end Filled

/-! ## The statements of a file -/

def Statement.process? : Statement → Option ProcessConfEntry
  | .configuration entry => some entry
  | _ => none

def Statement.plugin? : Statement → Option PluginConfEntry
  | .wrapping entry => some entry
  | _ => none

def Statement.size? : Statement → Option (Int32 × Int32)
  | .configurationSize _ processes _ plugins => some (processes, plugins)
  | _ => none

/-- The process entries of a file in order. -/
def processesOf (statements : List Statement) : List ProcessConfEntry :=
  statements.filterMap Statement.process?

/-- The plugin entries of a file in order. -/
def pluginsOf (statements : List Statement) : List PluginConfEntry :=
  statements.filterMap Statement.plugin?

/-- A file cut at its last size statement. -/
structure Sized where
  before : List Statement
  processes : Int32
  plugins : Int32
  after : List Statement

def sized : List Statement → Option Sized
  | [] => none
  | statement :: statements =>
      match sized statements with
      | some cut => some { cut with before := statement :: cut.before }
      | none =>
          statement.size?.map fun (processes, plugins) => ⟨[], processes, plugins, statements⟩

theorem sized_append_size (statements : List Statement) (processesName pluginsName : List UInt8)
    (processes plugins : Int32) :
    sized (statements ++ [.configurationSize processesName processes pluginsName plugins]) =
      some ⟨statements, processes, plugins, []⟩ := by
  induction statements with
  | nil => rfl
  | cons statement statements ih => rw [List.cons_append, sized, ih]

/-- A further entry behind the last size statement. -/
def Sized.append (cut : Sized) (statement : Statement) : Sized :=
  { cut with after := cut.after ++ [statement] }

theorem sized_append_entry (statements : List Statement) {statement : Statement}
    (h : statement.size? = none) :
    sized (statements ++ [statement]) =
      (sized statements).map fun cut => cut.append statement := by
  induction statements with
  | nil => simp [sized, h]
  | cons first statements ih =>
      rw [List.cons_append, sized, ih, sized]
      cases sized statements with
      | some cut => rfl
      | none => cases first.size? <;> rfl

/-- The configuration that the statements up to the last size statement and behind it leave. -/
def Sized.conf (cut : Sized) : Conf where
  processes := cut.processes
  processEntries :=
    filled (processesOf cut.before).length (processesOf cut.after) cut.processes.toInt.toNat
  plugins := cut.plugins
  pluginEntries :=
    filled (pluginsOf cut.before).length (pluginsOf cut.after) cut.plugins.toInt.toNat

/-- A statement that follows the given ones stores its entry within the table of the last size
statement, although its position counts all entries of its kind in the file. -/
def Fits (done : List Statement) : Statement → Prop
  | .configuration _ => ∃ cut, sized done = some cut ∧
      ((processesOf done).length : ℤ) < cut.processes.toInt
  | .wrapping _ => ∃ cut, sized done = some cut ∧
      ((pluginsOf done).length : ℤ) < cut.plugins.toInt
  | .configurationSize .. => True

/-- Every entry of the given statements is stored within the tables, after others. -/
def FitsAfter (done statements : List Statement) : Prop :=
  ∀ front statement back, statements = front ++ statement :: back →
    Fits (done ++ front) statement

/-- Every entry of a file is stored within the tables. -/
def StoresFit (statements : List Statement) : Prop := FitsAfter [] statements

/-- Behind the last size statement there are as many entries of each kind as it declares. -/
def Complete (statements : List Statement) : Prop :=
  ∃ cut, sized statements = some cut ∧
    ((processesOf cut.after).length : ℤ) = cut.processes.toInt ∧
    ((pluginsOf cut.after).length : ℤ) = cut.plugins.toInt

theorem fitsAfter_cons {done statements : List Statement} {statement : Statement} :
    FitsAfter done (statement :: statements) ↔
      Fits done statement ∧ FitsAfter (done ++ [statement]) statements := by
  constructor
  · intro h
    refine ⟨by simpa using h [] statement statements rfl, ?_⟩
    intro front next back heq
    rw [List.append_assoc]
    exact h (statement :: front) next back (congrArg (statement :: ·) heq)
  · rintro ⟨hfirst, hrest⟩ front next back heq
    cases front with
    | nil =>
        obtain ⟨rfl, -⟩ := List.cons.inj heq
        simpa using hfirst
    | cons first front =>
        obtain ⟨rfl, htail⟩ := List.cons.inj heq
        simpa using hrest front next back htail

theorem eq_of_sized {statements : List Statement} {cut : Sized}
    (h : sized statements = some cut) :
    ∃ processesName pluginsName, statements = cut.before ++
      .configurationSize processesName cut.processes pluginsName cut.plugins :: cut.after := by
  induction statements generalizing cut with
  | nil => cases h
  | cons statement statements ih =>
      rw [sized] at h
      cases hrest : sized statements with
      | some rest =>
          simp only [hrest, Option.some.injEq] at h
          subst h
          obtain ⟨processesName, pluginsName, heq⟩ := ih hrest
          exact ⟨processesName, pluginsName, congrArg (statement :: ·) heq⟩
      | none =>
          simp only [hrest, Option.map_eq_some_iff] at h
          obtain ⟨⟨processes, plugins⟩, hsize, rfl⟩ := h
          cases statement with
          | configuration entry => cases hsize
          | wrapping entry => cases hsize
          | configurationSize processesName _ pluginsName _ =>
              cases hsize
              exact ⟨processesName, pluginsName, rfl⟩

@[simp] theorem processesOf_append (front back : List Statement) :
    processesOf (front ++ back) = processesOf front ++ processesOf back :=
  List.filterMap_append

@[simp] theorem pluginsOf_append (front back : List Statement) :
    pluginsOf (front ++ back) = pluginsOf front ++ pluginsOf back :=
  List.filterMap_append

@[simp] theorem processesOf_configuration (entry : ProcessConfEntry) :
    processesOf [.configuration entry] = [entry] := rfl

@[simp] theorem pluginsOf_configuration (entry : ProcessConfEntry) :
    pluginsOf [.configuration entry] = [] := rfl

@[simp] theorem processesOf_wrapping (entry : PluginConfEntry) :
    processesOf [.wrapping entry] = [] := rfl

@[simp] theorem pluginsOf_wrapping (entry : PluginConfEntry) :
    pluginsOf [.wrapping entry] = [entry] := rfl

theorem length_entries_of_sized {statements : List Statement} {cut : Sized}
    (h : sized statements = some cut) :
    (processesOf statements).length =
        (processesOf cut.before).length + (processesOf cut.after).length ∧
      (pluginsOf statements).length =
        (pluginsOf cut.before).length + (pluginsOf cut.after).length := by
  obtain ⟨processesName, pluginsName, heq⟩ := eq_of_sized h
  rw [heq, processesOf_append, pluginsOf_append, List.length_append, List.length_append]
  exact ⟨rfl, rfl⟩

/-! ## The actions of a file -/

/-- The state after the given statements. The last conjunct of each bound holds because a store
outside its table ends the parse. -/
structure Reflects (done : List Statement) (s : State) : Prop where
  processEntry : s.processEntry = (processesOf done).length
  wrappingEntry : s.wrappingEntry = (pluginsOf done).length
  configuration : s.configuration = (sized done).map Sized.conf
  bounded : ∀ cut, sized done = some cut →
    (processesOf cut.after = [] ∨
      (processesOf done).length ≤ cut.processes.toInt.toNat) ∧
    (pluginsOf cut.after = [] ∨ (pluginsOf done).length ≤ cut.plugins.toInt.toNat)

theorem reflects_start : Reflects [] State.start := ⟨rfl, rfl, rfl, by simp [sized]⟩

namespace Reflects

variable {done : List Statement} {s t : State}

theorem conf_eq (h : Reflects done s) {cut : Sized} (hcut : sized done = some cut) :
    s.conf = .ok cut.conf := by
  simp [State.conf, h.configuration, hcut]

/-- A process entry that fits is stored behind the ones before it. -/
theorem configuration_ok (h : Reflects done s) {entry : ProcessConfEntry}
    (hfits : Fits done (.configuration entry)) :
    ∃ t, (Statement.configuration entry).action s = .ok t ∧
      Reflects (done ++ [.configuration entry]) t := by
  obtain ⟨cut, hcut, hlt⟩ := hfits
  obtain ⟨hlen, -⟩ := length_entries_of_sized hcut
  have hnext : sized (done ++ [.configuration entry]) =
      some (cut.append (.configuration entry)) := by
    rw [sized_append_entry _ rfl, hcut]
    rfl
  have hstore : storeEntry cut.conf.processEntries s.processEntry entry =
      .ok (cut.append (.configuration entry)).conf.processEntries := by
    simp only [h.processEntry, hlen, Sized.conf, Sized.append, processesOf_append,
      processesOf_configuration]
    exact storeEntry_filled entry (by omega)
  refine ⟨{ s with
    configuration := some (cut.append (.configuration entry)).conf
    processEntry := s.processEntry + 1 }, ?_, ?_, ?_, by rw [hnext]; rfl, ?_⟩
  · rw [Statement.action, h.conf_eq hcut]
    change (storeEntry cut.conf.processEntries s.processEntry entry >>= _) = _
    rw [hstore]
    simp [Sized.conf, Sized.append, bind, Except.bind, pure, Except.pure]
  · simp [h.processEntry]
  · simp [h.wrappingEntry]
  · intro next hcut'
    obtain rfl := Option.some.inj (hnext.symm.trans hcut')
    obtain ⟨-, hplugins⟩ := h.bounded cut hcut
    simp only [Sized.append, processesOf_append, pluginsOf_append, processesOf_configuration,
      pluginsOf_configuration, List.append_nil, List.length_append, List.length_singleton]
    exact ⟨.inr (by omega), hplugins⟩

/-- A plugin entry that fits is stored behind the ones before it. -/
theorem wrapping_ok (h : Reflects done s) {entry : PluginConfEntry}
    (hfits : Fits done (.wrapping entry)) :
    ∃ t, (Statement.wrapping entry).action s = .ok t ∧
      Reflects (done ++ [.wrapping entry]) t := by
  obtain ⟨cut, hcut, hlt⟩ := hfits
  obtain ⟨-, hlen⟩ := length_entries_of_sized hcut
  have hnext : sized (done ++ [.wrapping entry]) = some (cut.append (.wrapping entry)) := by
    rw [sized_append_entry _ rfl, hcut]
    rfl
  have hstore : storeEntry cut.conf.pluginEntries s.wrappingEntry entry =
      .ok (cut.append (.wrapping entry)).conf.pluginEntries := by
    simp only [h.wrappingEntry, hlen, Sized.conf, Sized.append, pluginsOf_append,
      pluginsOf_wrapping]
    exact storeEntry_filled entry (by omega)
  refine ⟨{ s with
    configuration := some (cut.append (.wrapping entry)).conf
    wrappingEntry := s.wrappingEntry + 1 }, ?_, ?_, ?_, by rw [hnext]; rfl, ?_⟩
  · rw [Statement.action, h.conf_eq hcut]
    change (storeEntry cut.conf.pluginEntries s.wrappingEntry entry >>= _) = _
    rw [hstore]
    simp [Sized.conf, Sized.append, bind, Except.bind, pure, Except.pure]
  · simp [h.processEntry]
  · simp [h.wrappingEntry]
  · intro next hcut'
    obtain rfl := Option.some.inj (hnext.symm.trans hcut')
    obtain ⟨hprocesses, -⟩ := h.bounded cut hcut
    simp only [Sized.append, processesOf_append, pluginsOf_append, processesOf_wrapping,
      pluginsOf_wrapping, List.append_nil, List.length_append, List.length_singleton]
    exact ⟨hprocesses, .inr (by omega)⟩

/-- A statement that fits is executed. -/
theorem action_ok (h : Reflects done s) {statement : Statement} (hfits : Fits done statement) :
    ∃ t, statement.action s = .ok t ∧ Reflects (done ++ [statement]) t := by
  cases statement with
  | configuration entry => exact h.configuration_ok hfits
  | wrapping entry => exact h.wrapping_ok hfits
  | configurationSize processesName processes pluginsName plugins =>
      refine ⟨{ s with configuration := some (allocateDynpmConf processes plugins) }, rfl,
        ?_, ?_, ?_, ?_⟩
      · rw [processesOf_append]
        exact h.processEntry.trans (by simp [processesOf, Statement.process?])
      · rw [pluginsOf_append]
        exact h.wrappingEntry.trans (by simp [pluginsOf, Statement.plugin?])
      · rw [sized_append_size]
        simp only [Option.map_some, Sized.conf, allocateDynpmConf]
        rw [show processesOf [] = [] from rfl, show pluginsOf [] = [] from rfl, filled_nil,
          filled_nil]
      · intro cut hcut
        rw [sized_append_size] at hcut
        obtain rfl := Option.some.inj hcut
        exact ⟨.inl rfl, .inl rfl⟩

/-- A statement that does not fit ends the parse. -/
theorem action_error (h : Reflects done s) {statement : Statement} (hfits : ¬ Fits done statement) :
    ∃ abort, statement.action s = .error abort := by
  cases hcut : sized done with
  | none =>
      have hnull : s.conf = .error (.fault .nullPointer) := by
        simp [State.conf, h.configuration, hcut]
      cases statement with
      | configuration entry => exact ⟨_, by rw [Statement.action, hnull]; rfl⟩
      | wrapping entry => exact ⟨_, by rw [Statement.action, hnull]; rfl⟩
      | configurationSize => exact absurd trivial hfits
  | some cut =>
      have hconf := h.conf_eq hcut
      cases statement with
      | configuration entry =>
          have hfull : ¬ s.processEntry < cut.processes.toInt.toNat := by
            intro hlt
            rw [h.processEntry] at hlt
            exact hfits ⟨cut, hcut, by omega⟩
          refine ⟨.fault .outOfBounds, ?_⟩
          rw [Statement.action, hconf]
          change (storeEntry cut.conf.processEntries s.processEntry entry >>= _) = _
          rw [Sized.conf, storeEntry_filled_full entry hfull]
          rfl
      | wrapping entry =>
          have hfull : ¬ s.wrappingEntry < cut.plugins.toInt.toNat := by
            intro hlt
            rw [h.wrappingEntry] at hlt
            exact hfits ⟨cut, hcut, by omega⟩
          refine ⟨.fault .outOfBounds, ?_⟩
          rw [Statement.action, hconf]
          change (storeEntry cut.conf.pluginEntries s.wrappingEntry entry >>= _) = _
          rw [Sized.conf, storeEntry_filled_full entry hfull]
          rfl
      | configurationSize => exact absurd trivial hfits

/-- The statements of a file are executed if they all fit, and otherwise the first one that does
not ends the parse. -/
theorem run (h : Reflects done s) (statements : List Statement) :
    (FitsAfter done statements → ∃ t, statements.foldlM Statement.action s = .ok t ∧
      Reflects (done ++ statements) t) ∧
    (¬ FitsAfter done statements →
      ∃ abort, statements.foldlM Statement.action s = .error abort) := by
  induction statements generalizing done s with
  | nil =>
      refine ⟨fun _ => ⟨s, rfl, by simpa using h⟩, fun hnot => absurd ?_ hnot⟩
      intro front statement back heq
      simp at heq
  | cons statement statements ih =>
      rw [fitsAfter_cons, List.foldlM_cons]
      by_cases hfits : Fits done statement
      · obtain ⟨t, ht, hreflects⟩ := h.action_ok hfits
        obtain ⟨hok, herror⟩ := ih hreflects
        rw [ht, List.append_cons done statement statements]
        exact ⟨fun hall => hok hall.2, fun hnot => herror fun hall => hnot ⟨hfits, hall⟩⟩
      · obtain ⟨abort, habort⟩ := h.action_error hfits
        rw [habort]
        exact ⟨fun hall => absurd hall.1 hfits, fun _ => ⟨abort, rfl⟩⟩

/-- As many entries are filled as there are behind the last size statement. -/
theorem countP_processEntries (h : Reflects done s) {cut : Sized} (hcut : sized done = some cut) :
    cut.conf.processEntries.countP Option.isSome = (processesOf cut.after).length := by
  have hlen := (length_entries_of_sized hcut).1
  exact countP_filled ((h.bounded cut hcut).1.imp_right fun hle => hlen ▸ hle)

theorem countP_pluginEntries (h : Reflects done s) {cut : Sized} (hcut : sized done = some cut) :
    cut.conf.pluginEntries.countP Option.isSome = (pluginsOf cut.after).length := by
  have hlen := (length_entries_of_sized hcut).2
  exact countP_filled ((h.bounded cut hcut).2.imp_right fun hle => hlen ▸ hle)

end Reflects

/-- The parse stores every entry in an existing element of its table, and it leaves a
configuration with as many filled entries of each kind as it declares. -/
def StoredWithin (tokens : List Token) : Prop :=
  ∃ code s conf, yyparse State.start (tokens.map .ok) = .ok (code, s) ∧
    s.configuration = some conf ∧
    (conf.processEntries.countP Option.isSome : ℤ) = conf.processes.toInt ∧
    (conf.pluginEntries.countP Option.isSome : ℤ) = conf.plugins.toInt

theorem storedWithin_statements (statements : List Statement) :
    StoredWithin (statements.flatMap Statement.tokens) ↔
      StoresFit statements ∧ Complete statements := by
  have hparse := yyparse_statements State.start statements
  obtain ⟨hok, herror⟩ := reflects_start.run statements
  by_cases hfits : StoresFit statements
  · obtain ⟨t, ht, hreflects⟩ := hok hfits
    rw [ht] at hparse
    rw [and_iff_right hfits]
    constructor
    · rintro ⟨code, s, conf, hrun, hconf, hprocesses, hplugins⟩
      obtain ⟨-, rfl⟩ : 0 = code ∧ t = s := by simpa [Except.map] using hparse.symm.trans hrun
      obtain ⟨cut, hcut, rfl⟩ :=
        Option.map_eq_some_iff.mp (hreflects.configuration.symm.trans hconf)
      rw [hreflects.countP_processEntries hcut] at hprocesses
      rw [hreflects.countP_pluginEntries hcut] at hplugins
      exact ⟨cut, hcut, hprocesses, hplugins⟩
    · rintro ⟨cut, hcut, hprocesses, hplugins⟩
      refine ⟨0, t, cut.conf, hparse, ?_, ?_, ?_⟩
      · rw [hreflects.configuration, List.nil_append, hcut]
        rfl
      · rw [hreflects.countP_processEntries hcut]
        exact hprocesses
      · rw [hreflects.countP_pluginEntries hcut]
        exact hplugins
  · obtain ⟨abort, habort⟩ := herror hfits
    rw [habort] at hparse
    constructor
    · rintro ⟨code, s, conf, hrun, -⟩
      simp [hparse, Except.map] at hrun
    · exact fun h => absurd h.1 hfits

/-- The derivable token sequences are the sequences of statements, and such a sequence is stored
within its tables if and only if no entry exceeds the table of the size statement before it and
the last size statement declares the entries behind it. -/
theorem stored_within_iff (tokens : List Token) :
    (Derivable tokens ↔
      ∃ statements : List Statement, tokens = statements.flatMap Statement.tokens) ∧
    ∀ statements : List Statement, tokens = statements.flatMap Statement.tokens →
      (StoredWithin tokens ↔ StoresFit statements ∧ Complete statements) := by
  refine ⟨derivable_iff, ?_⟩
  rintro statements rfl
  exact storedWithin_statements statements

/-- A plugin entry in front of the size statement. -/
def earlyPlugin : List Statement := [.wrapping ⟨[97], [98]⟩, .configurationSize [99] 0 [100] 1]

theorem earlyPlugin_not_stored :
    Derivable (earlyPlugin.flatMap Statement.tokens) ∧
      ¬ StoredWithin (earlyPlugin.flatMap Statement.tokens) := by
  refine ⟨derivable_iff.mpr ⟨earlyPlugin, rfl⟩, ?_⟩
  rintro ⟨code, s, conf, hrun, -⟩
  have hnull : yyparse State.start ((earlyPlugin.flatMap Statement.tokens).map .ok) =
      .error (.fault .nullPointer) := by
    decide +kernel
  cases hnull.symm.trans hrun

/-! ## The result of a parse -/

/-- `dynpm_conf_parse` returns zero exactly for the files in the language of the grammar. -/
def ReportsLanguage (text : List UInt8) (tokens : List Token) : Prop :=
  ∃ code s, dynpmConfParse State.start (some text) = .ok (code, s) ∧
    (code = 0 ↔ Derivable tokens)

/-- For a file that the scanner accepts, the result of `dynpm_conf_parse` tells whether the file
is in the language of the grammar if and only if it is and all its entries are stored within
their tables: the result of `yyparse` is ignored. -/
theorem conf_parse_reports_iff {text : List UInt8} {tokens : List Token}
    (hscan : yylex text = tokens.map .ok) :
    ReportsLanguage text tokens ↔
      ∃ statements : List Statement, tokens = statements.flatMap Statement.tokens ∧
        StoresFit statements := by
  constructor
  · rintro ⟨code, s, hparse, hcode⟩
    rw [dynpmConfParse, hscan] at hparse
    cases hrun : yyparse State.start (tokens.map .ok) with
    | error abort =>
        rw [hrun] at hparse
        cases hparse
    | ok result =>
        obtain ⟨rfl, -⟩ : 0 = code ∧ result.2 = s := by simpa [hrun, Except.map] using hparse
        obtain ⟨statements, rfl⟩ := derivable_iff.mp (hcode.mp rfl)
        refine ⟨statements, rfl, ?_⟩
        by_contra hfits
        obtain ⟨abort, habort⟩ := (reflects_start.run statements).2 hfits
        rw [yyparse_statements, habort] at hrun
        cases hrun
  · rintro ⟨statements, rfl, hfits⟩
    obtain ⟨t, ht, -⟩ := (reflects_start.run statements).1 hfits
    refine ⟨0, t, ?_, iff_of_true rfl (derivable_iff.mpr ⟨statements, rfl⟩)⟩
    rw [dynpmConfParse, hscan, yyparse_statements, ht]
    rfl

/-- An empty configuration, `{a=0,b=0}`. -/
def emptyConf : List UInt8 := [123, 97, 61, 48, 44, 98, 61, 48, 125]

theorem emptyConf_reported :
    ReportsLanguage emptyConf (Statement.configurationSize [97] 0 [98] 0).tokens := by
  have hscan : yylex emptyConf =
      (Statement.configurationSize [97] 0 [98] 0).tokens.map .ok := by
    decide +kernel
  refine (conf_parse_reports_iff hscan).mpr ⟨[.configurationSize [97] 0 [98] 0], rfl, ?_⟩
  intro front statement back heq
  cases front with
  | nil =>
      obtain ⟨rfl, -⟩ := List.cons.inj heq
      trivial
  | cons first front => simp at heq

/-- A file with a single brace is reported as a success. -/
theorem openBrace_reported :
    yylex [123] = [Token.left].map .ok ∧ ¬ ReportsLanguage [123] [Token.left] := by
  refine ⟨by decide +kernel, ?_⟩
  rintro ⟨code, s, hparse, hcode⟩
  have hzero : dynpmConfParse State.start (some [123]) = .ok (0, State.start) := by
    decide +kernel
  obtain ⟨rfl, -⟩ : 0 = code ∧ State.start = s := by simpa using hzero.symm.trans hparse
  obtain ⟨statements, heq⟩ := derivable_iff.mp (hcode.mp rfl)
  cases statements with
  | nil => cases heq
  | cons statement statements => cases statement <;> simp [Statement.tokens] at heq

end Dynpm.Config
