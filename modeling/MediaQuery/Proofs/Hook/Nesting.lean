import MediaQuery.Program.Context
import MediaQuery.Script.Hooks

/-!
# Nested hooks

The hooks of a chain stand around each other. A hook takes its time (`Plan.delays`), and then it ends on its own or asks
the rest of its chain with an input (`Plan.asks?`); what it does with the reply is its `Plan.rest`. To run a chain is to
open its hooks one by one, as far as each asks, and to close them again from the innermost one to the outermost
(`runBefore_eq`), so that what is behind the chain is run once or not at all. Chains compose accordingly: to run one chain
and then another is to run the first with the second at its end (`runBefore_append`), and this is how hooks run that are
registered one after another, whatever is registered under other names (`Hooks.nested_of_registered`).
-/

namespace MediaQuery

namespace Hook

/-! ## What a hook does -/

namespace Rest

/-- The pauses of a hook that has its reply. -/
def delays : Rest → List Nat
  | .sleep ms next => ms :: next.delays
  | _ => []

/-- How the hook ends. -/
def result : Rest → Except EvalError Value
  | .answer value => .ok value
  | .fail e => .error e
  | .sleep _ next => next.result

end Rest

namespace Plan

/-- The pauses of a hook before it ends on its own or asks the rest of its chain. -/
def delays : Plan → List Nat
  | .sleep ms next => ms :: next.delays
  | _ => []

/-- What the hook asks the rest of its chain with, if it asks. -/
def asks? : Plan → Option Value
  | .ask input _ => some input
  | .sleep _ next => next.asks?
  | _ => none

/-- What the hook does with the reply of the rest of its chain. One that does not ask ends as it is, whatever the
reply. -/
def rest (back : Except EvalError Value) : Plan → Rest
  | .answer value => .answer value
  | .fail e => .fail e
  | .sleep _ next => next.rest back
  | .ask _ next => next back

end Plan

/-- A program that pauses some times first. -/
def pausing {α : Type} (pauses : List Nat) (p : Prog α) : Prog α := pauses.foldr Prog.sleep p

section

variable {α β : Type} {back : Except EvalError Value}

theorem pausing_append (front behind : List Nat) (p : Prog α) :
    pausing (front ++ behind) p = pausing front (pausing behind p) := List.foldr_append

theorem pausing_bind (pauses : List Nat) (p : Prog α) (k : α → Prog β) :
    (pausing pauses p).bind k = pausing pauses (p.bind k) := by
  induction pauses with
  | nil => rfl
  | cons ms rest ih => exact congrArg (Prog.sleep ms) ih

theorem Rest.prog_eq (rest : Rest) : rest.prog = pausing rest.delays (.done rest.result) := by
  induction rest with
  | answer value => rfl
  | fail e => rfl
  | sleep ms next ih => exact congrArg (Prog.sleep ms) ih

/-- A hook that does not ask is not touched by what is behind it. -/
theorem Plan.prog_of_not_asks {plan : Plan} (h : plan.asks? = none) (back : Except EvalError Value)
    (last : Value → Prog (Except EvalError Value)) :
    plan.prog last = pausing (plan.delays ++ (plan.rest back).delays) (.done (plan.rest back).result) := by
  induction plan with
  | answer value => rfl
  | fail e => rfl
  | sleep ms next ih => exact congrArg (Prog.sleep ms) (ih h)
  | ask input next => cases h

/-- A hook that asks runs what is behind it once, between its pauses. -/
theorem Plan.prog_of_asks {plan : Plan} {handed : Value} (h : plan.asks? = some handed)
    (last : Value → Prog (Except EvalError Value)) :
    plan.prog last = pausing plan.delays ((last handed).bind fun back =>
      pausing (plan.rest back).delays (.done (plan.rest back).result)) := by
  induction plan with
  | answer value => cases h
  | fail e => cases h
  | sleep ms next ih => exact congrArg (Prog.sleep ms) (ih h)
  | ask input next =>
    obtain rfl : input = handed := Option.some.inj h
    exact congrArg (last input).bind (funext fun back => (next back).prog_eq)

end

/-! ## The calls of a chain -/

/-- A call of a hook: its input, and the reply of the rest of its chain. -/
structure Call where
  hook : Hook
  input : Value
  back : Except EvalError Value

namespace Call

/-- What the hook does with its input. -/
def plan (c : Call) : Plan := c.hook c.input

/-- What it asks the rest of its chain with. -/
def asks? (c : Call) : Option Value := c.plan.asks?

/-- How it ends. -/
def result (c : Call) : Except EvalError Value := (c.plan.rest c.back).result

/-- Its pauses before the rest of its chain. -/
def opening (c : Call) : List Nat := c.plan.delays

/-- Its pauses after the rest of its chain. -/
def closing (c : Call) : List Nat := (c.plan.rest c.back).delays

/-- Whether the hook lets a failure of the rest of its chain pass. -/
def LetsPass (c : Call) (e : EvalError) : Prop := (c.plan.rest (.error e)).result = .error e

end Call

/-- What the calls of a chain come to; a chain without calls replies itself. -/
def outcome (back : Except EvalError Value) : List Call → Except EvalError Value
  | [] => back
  | c :: _ => c.result

/-- The calls that a chain makes if what is behind it replies as given, the outermost first. -/
def calls (back : Except EvalError Value) : List Hook → Value → List Call
  | [], _ => []
  | hook :: rest, input =>
    match (hook input).asks? with
    | none => [⟨hook, input, back⟩]
    | some handed => ⟨hook, input, outcome back (calls back rest handed)⟩ :: calls back rest handed

/-- The input that comes out at the end of a chain, unless a hook ends on its own. -/
def reaches? : List Hook → Value → Option Value
  | [], input => some input
  | hook :: rest, input => (hook input).asks? >>= reaches? rest

/-- The pauses of calls before the innermost one has its reply, from the outermost call on. -/
def openings (calls : List Call) : List Nat := calls.flatMap Call.opening

/-- Their pauses afterwards, from the innermost call on. -/
def closings (calls : List Call) : List Nat := calls.reverse.flatMap Call.closing

/-- The end of a run once the innermost call has its reply. -/
def closeUp (calls : List Call) (back : Except EvalError Value) : Prog (Except EvalError Value) :=
  pausing (closings calls) (.done (outcome back calls))

section

variable {hook : Hook} {rest chain : List Hook} {input handed : Value} {back : Except EvalError Value}

theorem calls_of_not_asks (h : (hook input).asks? = none) :
    calls back (hook :: rest) input = [⟨hook, input, back⟩] := by
  rw [calls, h]

theorem calls_of_asks (h : (hook input).asks? = some handed) :
    calls back (hook :: rest) input =
      ⟨hook, input, outcome back (calls back rest handed)⟩ :: calls back rest handed := by
  rw [calls, h]

/-- The outermost call closes last. -/
theorem closeUp_cons (hook : Hook) (input : Value) (calls : List Call) (back : Except EvalError Value) :
    ((closeUp calls back).bind fun back =>
      pausing ((hook input).rest back).delays (.done ((hook input).rest back).result)) =
        closeUp (⟨hook, input, outcome back calls⟩ :: calls) back := by
  have hclosings : closings (⟨hook, input, outcome back calls⟩ :: calls) =
      closings calls ++ ((hook input).rest (outcome back calls)).delays := by
    unfold closings
    rw [List.reverse_cons, List.flatMap_append, List.flatMap_singleton]
    rfl
  unfold closeUp
  rw [hclosings, pausing_bind, pausing_append]
  rfl

/-! ## Running a chain -/

/-- **A chain one of whose hooks ends on its own** runs whatever is behind it not at all. -/
theorem runBefore_of_ends (h : reaches? chain input = none) (back : Except EvalError Value)
    (last : Value → Prog (Except EvalError Value)) :
    runBefore last chain input =
      pausing (openings (calls back chain input)) (closeUp (calls back chain input) back) := by
  induction chain generalizing input with
  | nil => cases h
  | cons hook rest ih =>
    cases hask : (hook input).asks? with
    | none =>
      rw [calls_of_not_asks hask, runBefore, Plan.prog_of_not_asks hask back, pausing_append]
      simp [openings, closeUp, closings, outcome, Call.opening, Call.closing, Call.result, Call.plan]
    | some handed =>
      have hrest : reaches? rest handed = none := by simpa [reaches?, hask] using h
      rw [calls_of_asks hask, runBefore, Plan.prog_of_asks hask, ih hrest, pausing_bind]
      rw [closeUp_cons, ← pausing_append]
      rfl

/-- **A chain that is passed** opens its calls, runs what is behind it once, and closes its calls with the reply. -/
theorem runBefore_of_reaches {handed : Value} (h : reaches? chain input = some handed) (back : Except EvalError Value)
    (last : Value → Prog (Except EvalError Value)) :
    runBefore last chain input =
      pausing (openings (calls back chain input))
        ((last handed).bind fun back => closeUp (calls back chain input) back) := by
  induction chain generalizing input with
  | nil =>
    obtain rfl : input = handed := Option.some.inj h
    exact ((last input).bind_done).symm
  | cons hook rest ih =>
    obtain ⟨inner, hask, hrest⟩ := Option.bind_eq_some_iff.1 h
    rw [runBefore, Plan.prog_of_asks hask, ih hrest, pausing_bind, Prog.bind_assoc]
    simp only [calls_of_asks hask, closeUp_cons]
    rw [← pausing_append]
    rfl

/-- What a chain does around whatever is behind it: nothing of it is run if a hook ends on its own; otherwise it is run
once, with the value that comes out at the end of the chain, between pauses that do not depend on it, and its result is
all that the chain goes on with. -/
structure Surrounds (chain : List Hook) (input : Value) : Prop where
  ends : reaches? chain input = none → ∀ last last', runBefore last chain input = runBefore last' chain input
  passed (handed : Value) : reaches? chain input = some handed →
    ∃ (before : List Nat) (after : Except EvalError Value → Prog (Except EvalError Value)),
      ∀ last, runBefore last chain input = pausing before ((last handed).bind after)

theorem surrounds (chain : List Hook) (input : Value) : Surrounds chain input where
  ends h last last' := (runBefore_of_ends h (.ok input) last).trans (runBefore_of_ends h (.ok input) last').symm
  passed _ h := ⟨_, _, runBefore_of_reaches h (.ok input)⟩

/-- What the end of a chain replies: the value that has come there. -/
def reply (chain : List Hook) (input : Value) : Except EvalError Value := .ok ((reaches? chain input).getD input)

theorem reply_of_reaches (h : reaches? chain input = some handed) : reply chain input = .ok handed := by
  rw [reply, h, Option.getD_some]

/-- **To run a chain is to open its calls and to close them again.** -/
theorem runChain_eq (chain : List Hook) (input : Value) :
    runChain chain input =
      pausing (openings (calls (reply chain input) chain input))
        (closeUp (calls (reply chain input) chain input) (reply chain input)) := by
  unfold runChain
  cases h : reaches? chain input with
  | none => exact runBefore_of_ends h _ _
  | some handed =>
    rw [runBefore_of_reaches h (reply chain input), reply_of_reaches h]
    rfl

/-- **Chains compose**: what is behind the first one is the second. -/
theorem runBefore_append (first second : List Hook) (last : Value → Prog (Except EvalError Value)) :
    runBefore last (first ++ second) = runBefore (runBefore last second) first := by
  induction first with
  | nil =>
    funext input
    rfl
  | cons hook rest ih =>
    funext input
    rw [List.cons_append, runBefore, ih, runBefore]

/-! ## Nested calls -/

/-- How calls of a chain are nested: the hook at each place is called once if the one before it has asked, and with what
that one has asked, and else not at all; its end is the reply to that one, and the outermost one decides. -/
structure Nested (chain : List Hook) (input : Value) (made : List Call) (result : Except EvalError Value) : Prop where
  /-- The call at a place is one of the hook at that place. -/
  placed {i : Nat} {c : Call} : made[i]? = some c → chain[i]? = some c.hook
  /-- The first hook is called with the input of the chain. -/
  first {hook : Hook} : chain[0]? = some hook → ∃ c, made[0]? = some c ∧ c.input = input
  /-- The hook behind another is called exactly if that one asks, and with what it asks. -/
  next {i : Nat} {c : Call} : made[i]? = some c → i + 1 < chain.length → made[i + 1]?.map Call.input = c.asks?
  /-- The end of a call is the reply to the one before it. -/
  back {i : Nat} {c c' : Call} : made[i]? = some c → made[i + 1]? = some c' → c.back = c'.result
  /-- Behind the last hook its own input comes back. -/
  atEnd {i : Nat} {c : Call} {handed : Value} :
    made[i]? = some c → i + 1 = chain.length → c.asks? = some handed → c.back = .ok handed
  /-- The result is the end of the outermost call, and of a chain without hooks the input. -/
  outermost {c : Call} : made[0]? = some c → result = c.result
  empty : chain = [] → result = .ok input

section

variable {result : Except EvalError Value} {made : List Call}

/-- Behind the first hook the rest of a chain is nested in the same way. -/
theorem Nested.cons (hask : (hook input).asks? = some handed) (h : Nested rest handed made result) :
    Nested (hook :: rest) input (⟨hook, input, result⟩ :: made) (((hook input).rest result).result) where
  placed {i c} hc := by
    cases i with
    | zero =>
      cases hc
      rfl
    | succ i => exact h.placed hc
  first _ := ⟨_, rfl, rfl⟩
  next {i c} hc hi := by
    cases i with
    | zero =>
      cases hc
      obtain ⟨next, hnext⟩ : ∃ next, rest[0]? = some next :=
        Option.isSome_iff_exists.1 (by simpa using hi)
      obtain ⟨c', hc', rfl⟩ := h.first hnext
      rw [List.getElem?_cons_succ, hc']
      exact hask.symm
    | succ i => exact h.next hc (by simpa using hi)
  back {i c c'} hc hc' := by
    cases i with
    | zero =>
      cases hc
      exact h.outermost hc'
    | succ i => exact h.back hc hc'
  atEnd {i c handed'} hc hi hasks := by
    cases i with
    | zero =>
      cases hc
      obtain rfl : handed = handed' := Option.some.inj (hask.symm.trans hasks)
      exact h.empty (by simpa using hi)
    | succ i => exact h.atEnd hc (by simpa using hi) hasks
  outermost hc := by
    cases hc
    rfl
  empty h := by cases h

/-- A hook that ends on its own has the only call. -/
theorem nested_of_not_asks (hask : (hook input).asks? = none) (back : Except EvalError Value) :
    Nested (hook :: rest) input [⟨hook, input, back⟩] ((hook input).rest back).result where
  placed {i c} hc := by
    cases i with
    | zero =>
      cases hc
      rfl
    | succ i => cases hc
  first _ := ⟨_, rfl, rfl⟩
  next {i c} hc _ := by
    cases i with
    | zero =>
      cases hc
      exact hask.symm
    | succ i => cases hc
  back {i c c'} _ hc' := by cases hc'
  atEnd {i c handed} hc _ hasks := by
    cases i with
    | zero =>
      cases hc
      cases hask.symm.trans hasks
    | succ i => cases hc
  outermost hc := by
    cases hc
    rfl
  empty h := by cases h

/-- **The calls of a chain are nested.** -/
theorem nested_calls (chain : List Hook) (input : Value) {back : Except EvalError Value}
    (hback : ∀ {handed}, reaches? chain input = some handed → back = .ok handed) :
    Nested chain input (calls back chain input) (outcome back (calls back chain input)) := by
  induction chain generalizing input with
  | nil =>
    exact
      { placed := nofun
        first := nofun
        next := nofun
        back := nofun
        atEnd := nofun
        outermost := nofun
        empty := fun _ => hback rfl }
  | cons hook rest ih =>
    cases hask : (hook input).asks? with
    | none =>
      rw [calls_of_not_asks hask]
      exact nested_of_not_asks hask back
    | some handed =>
      rw [calls_of_asks hask]
      exact (ih handed fun hreached => hback (by rw [reaches?, hask]; exact hreached)).cons hask

/-- Nothing is called behind a hook that ends on its own. -/
theorem Nested.length_of_not_asks (h : Nested chain input made result) {i : Nat} {c : Call} (hc : made[i]? = some c)
    (hask : c.asks? = none) : made.length = i + 1 := by
  have hi : i < made.length := (List.getElem?_eq_some_iff.1 hc).1
  refine Nat.le_antisymm (Nat.not_lt.1 fun hlater => ?_) hi
  have hlater : made[i + 1]? = some made[i + 1] := List.getElem?_eq_getElem hlater
  have hplaced : i + 1 < chain.length := (List.getElem?_eq_some_iff.1 (h.placed hlater)).1
  have hnext := h.next hc hplaced
  rw [hlater, hask] at hnext
  cases hnext

/-- **A failure passes from the innermost call to the outermost** and is the result, unless a hook on its way handles
it. -/
theorem Nested.failure (h : Nested chain input made result) {i : Nat} {c : Call} {e : EvalError}
    (hc : made[i]? = some c) (hfail : c.result = .error e)
    (hpass : ∀ j < i, ∀ outer, made[j]? = some outer → outer.LetsPass e) : result = .error e := by
  induction i generalizing c with
  | zero => exact (h.outermost hc).trans hfail
  | succ i ih =>
    obtain ⟨outer, houter⟩ : ∃ outer, made[i]? = some outer := by
      have hi := (List.getElem?_eq_some_iff.1 hc).1
      exact ⟨made[i], List.getElem?_eq_getElem (by omega)⟩
    have hback : outer.back = .error e := (h.back houter hc).trans hfail
    have hlets : outer.LetsPass e := hpass i (Nat.lt_succ_self i) outer houter
    refine ih houter ?_ fun j hj => hpass j (Nat.lt_succ_of_lt hj)
    rw [Call.result, hback]
    exact hlets

end

end

end Hook

/-! ## Registered hooks -/

namespace Hooks

/-- Registers hooks one after another, each under its name. -/
def registerAll (hooks : Hooks) (more : List (String × Hook)) : Hooks :=
  more.foldl (fun hooks e => hooks.register e.1 e.2) hooks

/-- The hooks that are registered under a name. -/
def named (name : String) (more : List (String × Hook)) : List Hook := (more.filter (·.1 = name)).map (·.2)

/-- A chain grows by the hooks that are registered under its name. -/
theorem chain_registerAll (hooks : Hooks) (more : List (String × Hook)) (name : String) :
    (hooks.registerAll more).chain name = hooks.chain name ++ named name more := by
  induction more generalizing hooks with
  | nil => exact (List.append_nil _).symm
  | cons e rest ih =>
    have hstep : (hooks.registerAll (e :: rest)).chain name = ((hooks.register e.1 e.2).registerAll rest).chain name :=
      rfl
    rw [hstep, ih, chain_register, named, named, List.filter_cons]
    by_cases hname : name = e.1
    · simp [hname]
    · simp [hname, Ne.symm hname]

/-- **Hooks nest, and chains compose.** Whatever has been registered before and is registered after, and under whichever
other names, the chain of a name runs as the chain that has been there with the hooks registered after at its end. It
surrounds these, so that they run once or not at all. All calls that are made are nested, and their pauses and the result
are all that happens: behind a hook that ends on its own nothing is called, and a failure is the result unless a hook
further out does not let it pass. -/
theorem nested_of_registered (hooks : Hooks) (more : List (String × Hook)) (name : String) (input : Value) :
    (hooks.registerAll more).execute name input =
        Hook.runBefore ((empty.registerAll more).execute name) (hooks.chain name) input ∧
      Hook.Surrounds (hooks.chain name) input ∧
      ∃ made result, Hook.Nested (hooks.chain name ++ named name more) input made result ∧
        (hooks.registerAll more).execute name input =
          Hook.pausing (Hook.openings made ++ Hook.closings made) (.done result) ∧
        (∀ (i : Nat) (c : Hook.Call), made[i]? = some c → c.asks? = none → made.length = i + 1) ∧
        ∀ (i : Nat) (c : Hook.Call) (e : EvalError), made[i]? = some c → c.result = .error e →
          (∀ j < i, ∀ outer : Hook.Call, made[j]? = some outer → outer.LetsPass e) → result = .error e := by
  have hchain := hooks.chain_registerAll more name
  have hmore : (empty.registerAll more).chain name = named name more := empty.chain_registerAll more name
  refine ⟨?_, Hook.surrounds _ _, ?_⟩
  · unfold execute Hook.runChain
    rw [hchain, hmore, Hook.runBefore_append]
  · have hnested := Hook.nested_calls (hooks.chain name ++ named name more) input Hook.reply_of_reaches
    refine ⟨_, _, hnested, ?_, fun i c => hnested.length_of_not_asks, fun i c e => hnested.failure⟩
    unfold execute
    rw [hchain, Hook.runChain_eq, Hook.pausing_append]
    rfl

/-- The last hook fails after the pause of the one before it, and the first one handles the failure. -/
example : (empty.registerAll [("load", Script.Hook.recover), ("load", Script.Hook.sleep 5), ("other", Script.Hook.fail "no"),
    ("load", Script.Hook.fail "no")]).execute "load" (.string "url") = .sleep 5 (.done (.ok .null)) := rfl

end Hooks

end MediaQuery
