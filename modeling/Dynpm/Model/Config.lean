import Dynpm.Library.Lexer
import Dynpm.Library.Statements
import Dynpm.Library.Stdio
import Mathlib.Data.Fintype.Basic

/-! # The configuration file

Model of `src/config`: the scanner of `flex.l`, the grammar and the actions of `bison.y`, and the
tables of `config.c`. `malloc` always succeeds.
-/

namespace Dynpm.Config

open Library Library.Lexer Library.Stdio

/-! ## Tokens -/

/-- The terminals of the grammar. -/
inductive Kind where
  | number
  | stringVal
  | equals
  | left
  | right
  | comma
  | colon
  deriving DecidableEq, Repr

/-- A terminal with its value in `yylval`. -/
inductive Token where
  | number (value : Int32)
  | stringVal (confString : List UInt8)
  | equals
  | left
  | right
  | comma
  | colon
  deriving DecidableEq, Repr

def Token.kind : Token → Kind
  | .number _ => .number
  | .stringVal _ => .stringVal
  | .equals => .equals
  | .left => .left
  | .right => .right
  | .comma => .comma
  | .colon => .colon

/-- How the process can end within a parse. -/
inductive Abort where
  | exit (code : ℤ)
  | fault (fault : Fault)
  deriving DecidableEq, Repr

/-! ## The scanner -/

/-- `CONFIG_MAX_STR_LEN` -/
def configMaxStrLen : ℕ := 16

/-- `[a-zA-Z0-9_]` -/
def isWord (b : UInt8) : Bool :=
  (97 ≤ b && b ≤ 122) || (65 ≤ b && b ≤ 90) || isDigit b || b = 95

/-- `[ \t\n]` -/
def isBlank (b : UInt8) : Bool := b = 32 || b = 9 || b = 10

/-- `atoi` of a string of digits. -/
def atoi (digits : List UInt8) : Int32 := (storeInt false (digitsValue digits)).toInt32

/-- The result of a match, where some matches return no token. -/
abbrev Lexeme := Option (Except Abort Token)

/-- `[0-9]+` -/
def numberRule : Rule Lexeme := .run isDigit fun text => some (.ok (.number (atoi text)))

/-- `[a-zA-Z0-9_]*`, which is never taken for an empty match. -/
def stringRule : Rule Lexeme :=
  .run isWord fun text =>
    some (if text.length < configMaxStrLen then .ok (.stringVal text)
      else .error (.fault .assertion))

/-- A rule for one character. -/
def symbolRule (b : UInt8) (token : Token) : Rule Lexeme :=
  .single (· == b) fun _ => some (.ok token)

/-- `[ \t\n]+` -/
def blankRule : Rule Lexeme := .run isBlank fun _ => none

/-- `"#"[^\n]*` -/
def commentRule : Rule Lexeme := .headed (· == 35) (· != 10) fun _ => none

/-- `.` -/
def otherRule : Rule Lexeme := .single (· != 10) fun _ => some (.error (.exit 1))

/-- The rules of `flex.l` in their order. -/
def flexRules : List (Rule Lexeme) :=
  [numberRule, stringRule, symbolRule 61 .equals, symbolRule 123 .left, symbolRule 125 .right,
    symbolRule 44 .comma, symbolRule 58 .colon, blankRule, commentRule, otherRule]

/-- What the successive calls of `yylex` on a file return, up to its end. -/
def yylex (text : List UInt8) : List (Except Abort Token) :=
  (Lexer.scan flexRules text).filterMap id

/-! ## The tables -/

/-- `dynpm_process_conf_entry_t` -/
structure ProcessConfEntry where
  name : List UInt8
  port : Int32
  threads : Int32
  host : List UInt8
  deriving DecidableEq, Repr

/-- `dynpm_plugin_conf_entry_t` -/
structure PluginConfEntry where
  pluginType : List UInt8
  pluginName : List UInt8
  deriving DecidableEq, Repr

/-- `dynpm_conf_t`; an entry of a table is empty until it is stored. -/
structure Conf where
  processes : Int32
  processEntries : List (Option ProcessConfEntry)
  plugins : Int32
  pluginEntries : List (Option PluginConfEntry)
  deriving DecidableEq, Repr

/-- `allocate_dynpm_conf`. A table of a negative size has no elements. -/
def allocateDynpmConf (processes plugins : Int32) : Conf where
  processes := processes
  processEntries := List.replicate processes.toInt.toNat none
  plugins := plugins
  pluginEntries := List.replicate plugins.toInt.toNat none

/-- The global `dynpm_configuration` and the static counters of the two actions. -/
structure State where
  configuration : Option Conf
  processEntry : ℕ
  wrappingEntry : ℕ
  deriving DecidableEq, Repr

/-- Before the first parse of a process. -/
def State.start : State := ⟨none, 0, 0⟩

/-- A store to an element of a table. -/
def storeEntry {α : Type} (table : List (Option α)) (position : ℕ) (entry : α) :
    Except Abort (List (Option α)) :=
  if position < table.length then .ok (table.set position (some entry))
  else .error (.fault .outOfBounds)

/-- `dynpm_configuration` is dereferenced. -/
def State.conf (s : State) : Except Abort Conf :=
  match s.configuration with
  | none => .error (.fault .nullPointer)
  | some conf => .ok conf

/-! ## The grammar -/

/-- A statement with the values of its tokens. -/
inductive Statement where
  | configuration (entry : ProcessConfEntry)
  | wrapping (entry : PluginConfEntry)
  | configurationSize (processesName : List UInt8) (processes : Int32)
      (pluginsName : List UInt8) (plugins : Int32)
  deriving DecidableEq, Repr

/-- The nonterminals that follow each other in `configurations`. -/
inductive StatementKind where
  | configuration
  | wrapping
  | configurationSize
  deriving DecidableEq

instance : Fintype StatementKind where
  elems := {.configuration, .wrapping, .configurationSize}
  complete i := by cases i <;> decide

/-- The right sides of their rules. -/
def shape : StatementKind → List Kind
  | .configuration =>
      [.stringVal, .equals, .left, .number, .comma, .number, .comma, .stringVal, .right]
  | .wrapping => [.stringVal, .colon, .stringVal]
  | .configurationSize =>
      [.left, .stringVal, .equals, .number, .comma, .stringVal, .equals, .number, .right]

/-- The grammar of `bison.y` with the start symbol `configurations`. -/
def grammar : ContextFreeGrammar Kind := Statements.grammar shape

/-- The action of a statement. -/
def Statement.action (s : State) : Statement → Except Abort State
  | .configuration entry => do
      let conf ← s.conf
      let table ← storeEntry conf.processEntries s.processEntry entry
      return { s with
        configuration := some { conf with processEntries := table }
        processEntry := s.processEntry + 1 }
  | .wrapping entry => do
      let conf ← s.conf
      let table ← storeEntry conf.pluginEntries s.wrappingEntry entry
      return { s with
        configuration := some { conf with pluginEntries := table }
        wrappingEntry := s.wrappingEntry + 1 }
  | .configurationSize _ processes _ plugins =>
      .ok { s with configuration := some (allocateDynpmConf processes plugins) }

/-- The statement that the tokens of a right side make up. -/
def statementOf : List Token → Option Statement
  | [.stringVal name, .equals, .left, .number port, .comma, .number threads, .comma,
      .stringVal host, .right] => some (.configuration ⟨name, port, threads, host⟩)
  | [.stringVal pluginType, .colon, .stringVal pluginName] =>
      some (.wrapping ⟨pluginType, pluginName⟩)
  | [.left, .stringVal processesName, .equals, .number processes, .comma, .stringVal pluginsName,
      .equals, .number plugins, .right] =>
      some (.configurationSize processesName processes pluginsName plugins)
  | _ => none

/-- A reduction: the action of the statement on the stack is executed. -/
def reduce (s : State) (tokens : List Token) : Except Abort State :=
  match statementOf tokens with
  | some statement => statement.action s
  | none => .ok s

/-- `yyparse` on the tokens of a file. It returns zero if the file is accepted, and one after the
first syntax error; the grammar has no rules for recovery. -/
def yyparse (s : State) (tokens : List (Except Abort Token)) : Except Abort (ℤ × State) :=
  (Statements.parse shape Token.kind reduce s [] tokens).map fun (accepted, s) =>
    (if accepted then 0 else 1, s)

/-! ## The functions of `config.c` -/

/-- `dynpm_conf_parse` on the contents of `dynpm.conf`, or without a file to open. -/
def dynpmConfParse (s : State) : Option (List UInt8) → Except Abort (ℤ × State)
  | none => .ok (-1, s)
  | some text => (yyparse s (yylex text)).map fun (_, s) => (0, s)

/-- The loop of the two lookups: the first entry whose key is the given string. `malloc` is what
the elements hold that were never stored. -/
def lookup {α : Type} (key : α → List UInt8) (count : Int32) (table : List (Option α))
    (malloc : ℕ → α) (name : List UInt8) : ℤ × Option α :=
  let entries := (table.take count.toInt.toNat).mapIdx fun i entry => entry.getD (malloc i)
  match entries.find? fun entry => cstring (key entry) = cstring name with
  | some entry => (0, some entry)
  | none => (-1, none)

/-- `dynpm_conf_get_process_config`: its result and `*config_entry`. -/
def dynpmConfGetProcessConfig (conf : Conf) (malloc : ℕ → ProcessConfEntry) (name : List UInt8) :
    ℤ × Option ProcessConfEntry :=
  lookup ProcessConfEntry.name conf.processes conf.processEntries malloc name

/-- `dynpm_conf_get_plugin_config`: its result and `*config_entry`. -/
def dynpmConfGetPluginConfig (conf : Conf) (malloc : ℕ → PluginConfEntry) (name : List UInt8) :
    ℤ × Option PluginConfEntry :=
  lookup PluginConfEntry.pluginType conf.plugins conf.pluginEntries malloc name

end Dynpm.Config
