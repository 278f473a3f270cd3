import MediaQuery.Media.Duration
import MediaQuery.Media.Guess
import MediaQuery.PageTask
import MediaQuery.Text.Entity

/-!
# Expressions

Scripts are actions put together from small programs. An expression is a program of the branch it runs on that
computes a value or nothing, or fails. Its operands are evaluated from left to right, each at most once, and the
first failure ends it.
-/

namespace MediaQuery.Script

/-- A program that computes a value or nothing, or fails. -/
abbrev Expr := Prog (Except EvalError (Option Value))

/-! ## Results as operands -/

/-- A result as text. -/
def textOf (r : Option Value) : String := Value.displayOption r

/-- A result as a whole number; whatever is none counts as zero. -/
def intOf (r : Option Value) : Int64 := (r >>= Value.asInt?).getD 0

/-- A result as a value; nothing is null. -/
def valueOf (r : Option Value) : Value := r.getD .null

/-- Whether a result is true. -/
def isTrue : Option Value → Bool
  | some (.bool b) => b
  | _ => false

/-- Whether a result is nothing or null. -/
def isAbsent : Option Value → Bool
  | none => true
  | some v => v.isNull

/-! ## Leaves -/

/-- A value. -/
def lit (v : Value) : Expr := return .ok (some v)

/-- Nothing. -/
def undefined : Expr := return .ok none

/-- A value that is always there. -/
def always (p : Prog Value) : Expr := do return .ok (some (← p))

/-- A value that has to be found on the branch. -/
def found (p : Prog (Except ContextError Value)) : Expr := do
  match ← p with
  | .ok v => return .ok (some v)
  | .error e => return .error (.context e)

/-- The value of a key. -/
def get (key : String) : Expr := found (Prog.get [] key)

/-- The value of a key, waiting for it. -/
def getResolved (key : String) : Expr := found (Prog.getResolved [] key)

/-- The current value. -/
def current : Expr := found (Prog.current [])

/-- Whether a key is set. -/
def has (key : String) : Expr := always do return .bool (← Prog.has [] key)

/-- Every value that is there. -/
def all : Expr := always do return .map (← Prog.getAll [])

/-- The newest result of the branch. -/
def last : Expr := do return .ok (← Prog.lastResult [])

/-- The path of the branch. -/
def path : Expr := always do return .string (← Prog.path []).render

/-- The number of entries of the log. -/
def logLength : Expr := always do return .ofCount (← Prog.log []).length

/-- Whether the log has no entries. -/
def logEmpty : Expr := always do return .bool (← Prog.log []).isEmpty

/-- A pause. -/
def sleep (ms : Nat) : Expr := do
  Prog.pause ms
  return .ok none

/-! ## The query -/

/-- Something the query is run with. -/
def input (f : Inputs → Option Value) : Expr := do return .ok (f (← Prog.inputs []))

/-- The request. -/
def request : Expr := input fun i => some i.request.toValue

/-- The page number of the request. -/
def pageNumber : Expr := input fun i => some (.ofOption .integer i.request.pageNumber)

/-- The cursor of the request. -/
def cursor : Expr := input fun i => some (.ofOption Cursor.toValue i.request.cursor)

/-- A parameter of the request. -/
def param (name : String) : Expr := input fun i => (i.request.params.lookup name).map Value.ofJson

/-- A secret. -/
def secret (name : String) : Expr := input fun i => some (.ofOption .string (i.secrets.lookup name))

/-- The names of all secrets. -/
def secretNames : Expr := input fun i => some (.list ((Fields.names i.secrets).map .string))

/-- What is known of a handler, as a map. -/
def handlerValue (h : HandlerInfo) : Value :=
  .map [("displayName", .string h.displayName), ("id", .string h.id), ("paginationType", .string h.pagination.name)]

/-- The handler. -/
def handler : Expr := input fun i => i.handler.map handlerValue

/-- The identifier of the source. -/
def sourceId : Expr := input fun i => some (.string i.sourceId)

/-- How the handler divides its listing. -/
def pagination : Expr := input fun i => some (.string i.pagination.name)

/-- Whether this is the last page that the budget allows. -/
def fetchLimitReached : Expr := input fun i => some (.ofOption .bool i.fetchLimitReached)

/-- Whether network requests may be cached. -/
def cacheRequests : Expr := input fun i => some (.bool i.cacheRequests)

/-- The number of hooks of a name. -/
def hookCount (name : String) : Expr := input fun i => some (.ofCount (i.hooks.count name))

/-! ## Operators -/

/-- An expression with one operand. -/
def map (f : Option Value → Except EvalError (Option Value)) (a : Expr) : Expr := ExceptT.run do
  let x ← ExceptT.mk a
  ExceptT.mk (return f x)

/-- An expression with two operands. -/
def map₂ (f : Option Value → Option Value → Except EvalError (Option Value)) (a b : Expr) : Expr := ExceptT.run do
  let x ← ExceptT.mk a
  let y ← ExceptT.mk b
  ExceptT.mk (return f x y)

/-- The results of expressions in order. -/
def results : List Expr → Prog (Except EvalError (List (Option Value)))
  | [] => return .ok []
  | a :: rest => ExceptT.run do
    let x ← ExceptT.mk a
    let xs ← ExceptT.mk (results rest)
    return x :: xs

/-- An expression with any number of operands. -/
def mapAll (f : List (Option Value) → Value) (operands : List Expr) : Expr := do
  return (← results operands).map fun xs => some (f xs)

/-- The texts of the operands one after another. -/
def concat (operands : List Expr) : Expr := mapAll (fun xs => .string (String.join (xs.map textOf))) operands

/-- A list. -/
def list (operands : List Expr) : Expr := mapAll (fun xs => .list (xs.map valueOf)) operands

/-- A map; of entries with one key the last value stays, in the first place. -/
def record (entries : List (String × Expr)) : Expr :=
  mapAll (fun xs => .map (Fields.insertAll [] ((Fields.names entries).zip (xs.map valueOf))))
    (entries.map Prod.snd)

/-- A sum of whole numbers, modulo the word. -/
def add : Expr → Expr → Expr := map₂ fun x y => .ok (some (.integer (intOf x + intOf y)))

/-- A product of whole numbers, modulo the word. -/
def mul : Expr → Expr → Expr := map₂ fun x y => .ok (some (.integer (intOf x * intOf y)))

/-- Whether a whole number is at least another. -/
def atLeast : Expr → Expr → Expr := map₂ fun x y => .ok (some (.bool (intOf y ≤ intOf x)))

/-- Whether two results are equal. -/
def equal : Expr → Expr → Expr := map₂ fun x y => .ok (some (.bool (x == y)))

/-- One expression or the other. -/
def choose (condition whenTrue otherwise : Expr) : Expr := do
  match ← condition with
  | .ok x => if isTrue x then whenTrue else otherwise
  | .error e => return .error e

/-- The second expression if the first gives nothing or null. -/
def orElse (first second : Expr) : Expr := do
  match ← first with
  | .ok x => if isAbsent x then second else return .ok x
  | .error e => return .error e

/-- The entry of a map. -/
def field (key : String) : Expr → Expr := map fun x => .ok (x >>= (Value.get? · key))

/-- Runs the hooks of a name. -/
def runHook (name : String) (a : Expr) : Expr := ExceptT.run do
  let x ← ExceptT.mk a
  let answer ← ExceptT.mk (Prog.runHook [] name (valueOf x))
  return some answer

/-! ## Media -/

/-- What is said about media, where a failure is one of the action. -/
def described (f : α → Value) (r : Except MediaError α) : Except EvalError (Option Value) :=
  match r with
  | .ok a => .ok (some (f a))
  | .error e => .error e.toEvalError

/-- The seconds of a clock text. -/
def duration : Expr → Expr :=
  map fun x => described .ofCount (Media.durationSeconds (textOf x))

/-- A text with its entities decoded. -/
def decodeEntities : Expr → Expr := map fun x => .ok (some (.string (Text.decodeEntities (textOf x))))

/-- The entries of a map; whatever is none has no entries. -/
def entriesOf (r : Option Value) : List (String × Value) := (r >>= Value.asMap?).getD []

/-- Describes the medium at an address. -/
def guessFromUrl : Expr → Expr → Expr :=
  map₂ fun url known => described .map (Media.guessFromUrl .common (textOf url) (entriesOf known))

/-- Describes a medium of a type. -/
def guessFromType : Expr → Expr → Expr :=
  map₂ fun mimeType known => described .map (Media.guessFromType .common (textOf mimeType) (entriesOf known))

/-! ## Failures and nested pages -/

/-- Fails with the error that a program makes. -/
def failWith (cause : Prog EvalError) : Expr := do return .error (← cause)

/-- The error of an action. -/
def actionError (text : String) (causes : List String) : Prog EvalError := return .action text causes

/-- An error that was met at a path of another query. -/
def nestedError (cause : Prog EvalError) (p : Path) : Prog EvalError := do
  let e ← cause
  return .nested (.failed e.message p e [] (← Prog.openSession [] .blank))

/-- What an expression takes from a nested page. -/
inductive Part where
  | media
  | body
  | request
  deriving DecidableEq, Repr, Inhabited

/-- The part of a page. -/
def Part.of : Part → Response → Value
  | .media, r => .list r.media
  | .body, r => r.body
  | .request, r => r.request.toValue

/-- Makes a nested page and takes a part of it. -/
def load (h : Handler) (r : Request) (secrets : Secrets) (part : Part) : Expr := do
  match ← Prog.loadRequest [] h r secrets with
  | .ok response => return .ok (some (part.of response))
  | .error e => return .error (.request e)

end MediaQuery.Script
