import MediaQuery.Report
import Mathlib.Data.List.Destutter
import Mathlib.Data.List.Range

/-!
# What a report tells

The report of a failure says three things (`ExecutionError.Reports`): where it happened, as a tree with one node for the
root and one for each segment of the path; what is behind it, as the chain of causes (`Fault.Chain`), where equal
neighbours are merged; and what came before it, as the newest entries of the log. Every failure is reported so
(`ExecutionError.reports_of_describe`).

The last node of the tree is marked and no other one, unless it is the root: where the root itself failed, nothing is
marked (`ExecutionError.unmarked_at_root`).
-/

namespace MediaQuery

/-! ## The chain of causes -/

/-- Whatever can be behind a failure. -/
inductive Fault where
  | inside (e : EvalError)
  | wrapped (e : ExecutionError)
  | query (e : Error)
  | validation (e : ValidationError)
  | pagination (e : PaginationError)
  | context (e : ContextError)
  /-- One of the causes that an action gives for its failure, with those behind it. -/
  | own (text : String) (behind : List String)

namespace Fault

variable {f g : Fault} {chain chain' : List Fault}

/-- The wording of a fault. -/
def message : Fault → String
  | .inside e => e.message
  | .wrapped e => e.message
  | .query e => e.message
  | .validation e => e.message
  | .pagination e => e.message
  | .context e => e.message
  | .own text _ => text

/-- The nearest of an action's own causes. -/
def nearest? : List String → Option Fault
  | [] => none
  | text :: behind => some (.own text behind)

/-- What is directly behind a fault. A failure that travels wrapped is no link of its own: its cause comes next. -/
def source? : Fault → Option Fault
  | .inside (.action _ causes) => nearest? causes
  | .inside (.request e) => some (.query e)
  | .inside (.nested e) => some (.inside e.cause)
  | .inside _ => none
  | .wrapped e => some (.inside e.cause)
  | .query (.execution e) => some (.wrapped e)
  | .query (.validation e) => some (.validation e)
  | .query (.pagination e) => some (.pagination e)
  | .query (.context e) => some (.context e)
  | .query (.internal _) => none
  | .own _ behind => nearest? behind
  | .validation _ => none
  | .pagination _ => none
  | .context _ => none

/-- All that is behind a fault, nearest first. -/
inductive Chain : Fault → List Fault → Prop
  | last {f : Fault} (h : f.source? = none) : Chain f []
  | behind {f g : Fault} {rest : List Fault} (h : f.source? = some g) (hrest : Chain g rest) : Chain f (g :: rest)

/-- A fault has one chain only. -/
theorem Chain.unique (h : Chain f chain) (h' : Chain f chain') : chain = chain' := by
  induction h generalizing chain' with
  | last h =>
    cases h' with
    | last => rfl
    | behind h' =>
      rw [h] at h'
      cases h'
  | behind h _ ih =>
    cases h' with
    | last h' =>
      rw [h] at h'
      cases h'
    | behind h' hrest' =>
      rw [h] at h'
      cases h'
      rw [ih hrest']

/-- What is behind a fault has these messages. -/
def Tells (f : Fault) (messages : List String) : Prop := ∃ chain, Chain f chain ∧ chain.map message = messages

theorem tells_nil (h : f.source? = none) : f.Tells [] := ⟨[], .last h, rfl⟩

theorem Tells.cons {messages : List String} (h : g.Tells messages) (hsource : f.source? = some g) :
    f.Tells (g.message :: messages) := by
  obtain ⟨chain, hchain, rfl⟩ := h
  exact ⟨g :: chain, .behind hsource hchain, rfl⟩

theorem tells_nearest (causes : List String) (h : f.source? = nearest? causes) : f.Tells causes := by
  induction causes generalizing f with
  | nil => exact tells_nil h
  | cons text behind ih => exact (ih rfl : (own text behind).Tells behind).cons h

-- along the failure: each clause puts the message of the next fault in front of what is behind that one
mutual

/-- **The causes of a failure are its chain**, message by message. -/
theorem tells_inside : ∀ e : EvalError, (inside e).Tells e.causes
  | .action _ causes => tells_nearest causes rfl
  | .request e => by
    rw [EvalError.causes]
    exact (tells_query e).cons rfl
  | .nested (.failed _ _ cause _ _) => by
    rw [EvalError.causes, ExecutionError.causes]
    exact (tells_inside cause).cons rfl
  | .context _ => tells_nil rfl
  | .invalidArrayMapSource _ => tells_nil rfl
  | .arrayMapOutsideList => tells_nil rfl
  | .invalidInclude _ => tells_nil rfl

/-- The same for a wrapped failure. -/
theorem tells_wrapped : ∀ e : ExecutionError, (wrapped e).Tells e.causes
  | .failed _ _ cause _ _ => by
    rw [ExecutionError.causes]
    exact (tells_inside cause).cons rfl

/-- The same for the failure of a query. -/
theorem tells_query : ∀ e : Error, (query e).Tells e.causes
  | .execution e => by
    rw [Error.causes]
    exact (tells_wrapped e).cons rfl
  | .validation e => by
    rw [Error.causes]
    exact (tells_nil (f := validation e) rfl).cons rfl
  | .pagination e => by
    rw [Error.causes]
    exact (tells_nil (f := pagination e) rfl).cons rfl
  | .context e => by
    rw [Error.causes]
    exact (tells_nil (f := context e) rfl).cons rfl
  | .internal _ => tells_nil rfl

end

end Fault

theorem mergeRuns_cons (a : String) (l : List String) : mergeRuns (a :: l) = l.destutter' (· ≠ ·) a := by
  -- one side keeps the last of two equal neighbours and the other one the first, which is the same text
  induction l generalizing a with
  | nil => rfl
  | cons b l ih =>
    rw [mergeRuns, ih]
    split
    · next h => rw [List.destutter'_cons_neg l (not_not.2 h), h]
    · next h => rw [List.destutter'_cons_pos l h]

/-- Neighbours are merged exactly where they are equal. -/
theorem mergeRuns_eq_destutter (l : List String) : mergeRuns l = l.destutter (· ≠ ·) := by
  cases l with
  | nil => rfl
  | cons a l => rw [mergeRuns_cons, List.destutter_cons']

namespace Report

/-! ## The tree -/

/-- A node of the tree: how many levels it is below the root, its name, and whether it is marked as the one that
failed. -/
structure Node where
  level : Nat
  name : String
  failed : Bool

/-- What connects a node with the one above it. -/
def connection : Nat → String
  | 0 => ""
  | level + 1 => String.ofList (List.replicate (4 * level) ' ') ++ "└── "

/-- The line of a node. -/
def Node.line (step : Option Nat) (n : Node) : String :=
  "  " ++ connection n.level ++ n.name ++ if n.failed then mark step else ""

/-- The nodes of the segments from a level on; the last one is marked. -/
def below (level : Nat) : List Segment → List Node
  | [] => []
  | s :: rest => ⟨level, label s, rest.isEmpty⟩ :: below (level + 1) rest

/-- The nodes of a path. -/
def tree (segments : List Segment) : List Node := ⟨0, "$", false⟩ :: below 1 segments

theorem map_line_below (step : Option Nat) (depth : Nat) (segments : List Segment) :
    (below (depth + 1) segments).map (Node.line step) = nodes step depth segments := by
  induction segments generalizing depth with
  | nil => rfl
  | cons s rest ih =>
    rw [below, nodes, List.map_cons, ih]
    congr 1
    cases rest with
    | nil => simp [Node.line, connection, String.append_assoc]
    | cons t rest => simp [Node.line, connection, String.append_assoc]

theorem map_line_tree (step : Option Nat) (segments : List Segment) :
    (tree segments).map (Node.line step) = "  $" :: nodes step 0 segments := by
  rw [tree, List.map_cons, map_line_below]
  rfl

theorem map_name_below (level : Nat) (segments : List Segment) :
    (below level segments).map Node.name = segments.map label := by
  induction segments generalizing level with
  | nil => rfl
  | cons s rest ih => rw [below, List.map_cons, ih, List.map_cons]

theorem map_level_below (level : Nat) (segments : List Segment) :
    (below level segments).map Node.level = List.range' level (below level segments).length := by
  induction segments generalizing level with
  | nil => rfl
  | cons s rest ih => rw [below, List.map_cons, ih, List.length_cons, List.range'_succ]

/-- Each node is one level deeper than the one before. -/
theorem map_level_tree (segments : List Segment) :
    (tree segments).map Node.level = List.range (tree segments).length := by
  rw [tree, List.map_cons, map_level_below, List.length_cons, List.range_eq_range', List.range'_succ]

/-- Of the nodes below the root the last one is marked, and no other one. -/
theorem filter_failed_below (level : Nat) (segments : List Segment) :
    (below level segments).filter Node.failed = (below level segments).getLast?.toList := by
  induction segments generalizing level with
  | nil => rfl
  | cons s rest ih =>
    cases rest with
    | nil => rfl
    | cons t rest =>
      -- a node with others behind it is not marked, and the last of them is the last of all
      have hlast := ih (level + 1)
      rw [below, List.filter_cons_of_neg (by simp), hlast, below, List.getLast?_cons_cons]

theorem filter_failed_tree (segments : List Segment) :
    (tree segments).filter Node.failed = if segments = [] then [] else (tree segments).getLast?.toList := by
  cases segments with
  | nil => rfl
  | cons s rest =>
    rw [tree, List.filter_cons_of_neg (by simp), filter_failed_below, if_neg (List.cons_ne_nil s rest), below,
      List.getLast?_cons_cons]

/-! ## Causes and log -/

/-- The part about the causes: they are numbered from zero. -/
def causePart (causes : List String) : List String :=
  ["", "  Caused by:"] ++ causes.mapIdx fun i cause => "    " ++ toString i ++ ": " ++ cause

/-- The part about the log, of which so many entries are shown: it is left out if there are none, and says how many
there are if not all of them are shown. -/
def logPart (shown : List Path) (total : Nat) : List String :=
  if total = 0 then []
  else
    let title :=
      if shown.length < total then
        "  Execution log (last " ++ toString shown.length ++ " of " ++ toString total ++ " entries):"
      else "  Execution log:"
    ["", title] ++ shown.map fun p => "    " ++ logLine p

theorem numbered_eq_mapIdx (i : Nat) (causes : List String) :
    numbered i causes = causes.mapIdx fun j cause => "    " ++ toString (i + j) ++ ": " ++ cause := by
  induction causes generalizing i with
  | nil => rfl
  | cons cause rest ih =>
    rw [numbered, ih, List.mapIdx_cons]
    simp only [Nat.add_zero, Nat.add_right_comm i 1, Nat.add_assoc]

theorem causeLines_eq {causes : List String} (h : causes ≠ []) : causeLines causes = causePart causes := by
  rw [causeLines, if_neg (by simpa using h), numbered_eq_mapIdx, causePart]
  simp only [Nat.zero_add]

/-- The newest entries of a log: all of them, or as many as a report shows. -/
def newest (log : List Path) : List Path := log.drop (log.length - logTail)

theorem length_newest (log : List Path) : (newest log).length = min 20 log.length := by
  rw [newest, List.length_drop, logTail]
  omega

theorem logLines_eq (log : List Path) : logLines log = logPart (newest log) log.length := by
  cases log with
  | nil => rfl
  | cons p rest =>
    have hlength := length_newest (p :: rest)
    have hempty : ¬(p :: rest).isEmpty = true := Bool.false_ne_true
    have hnone : ¬(p :: rest).length = 0 := Nat.succ_ne_zero _
    simp only [logLines, logPart, if_neg hempty, if_neg hnone]
    by_cases hskipped : 0 < (p :: rest).length - logTail
    · have hfull : (newest (p :: rest)).length = logTail := by
        unfold logTail at hskipped ⊢
        omega
      have hmore : logTail < (p :: rest).length := Nat.lt_of_sub_pos hskipped
      rw [if_pos hskipped, hfull, if_pos hmore]
      rfl
    · have hall : ¬(newest (p :: rest)).length < (p :: rest).length := by
        unfold logTail at hskipped
        omega
      rw [if_neg hskipped, if_neg hall]
      rfl

end Report

/-! ## The whole report -/

namespace ExecutionError

open Report

/-- The report of a failure is made of a tree, a chain of causes and the entries of the log that are shown. The tree has
a node for the root and one for each segment, each of them one level deeper than the one before; equal neighbours among
the causes are merged; and the last twenty entries of the log are shown, or all if there are fewer. -/
structure Reports (e : ExecutionError) (tree : List Node) (chain : List Fault) (shown : List Path) : Prop where
  text : e.describe = String.join
    (([e.message, "  Error occurred at: " ++ e.path.render, ""] ++ tree.map (Node.line e.path.step) ++
      causePart ((chain.map Fault.message).destutter (· ≠ ·)) ++ logPart shown e.log.length).map (· ++ "\n"))
  names : tree.map Node.name = "$" :: e.path.segments.map label
  levels : tree.map Node.level = List.range tree.length
  causes : Fault.Chain (.wrapped e) chain
  newest : shown <:+ e.log
  count : shown.length = min 20 e.log.length

/-- **What a report tells.** Whatever the path, the causes and the log of a failure are, its report has these parts. In
the tree the last node is marked, with the step of the chain if there is one, and no other node is; but if that node is
the root, none is. -/
theorem reports_of_describe (e : ExecutionError) : ∃ tree chain shown, e.Reports tree chain shown ∧
    tree.filter Node.failed = if e.path.segments = [] then [] else tree.getLast?.toList := by
  obtain ⟨chain, hchain, hmessages⟩ := Fault.tells_wrapped e
  -- a failure has its own cause behind it, so the part about the causes is never left out
  have hmerged : mergeRuns e.causes ≠ [] := by
    obtain ⟨headline, path, cause, log, branch⟩ := e
    rw [mergeRuns_eq_destutter, ne_eq, List.destutter_eq_nil, causes]
    exact List.cons_ne_nil _ _
  refine ⟨tree e.path.segments, chain, Report.newest e.log, ⟨?_, ?_, ?_, hchain, ?_, length_newest e.log⟩,
    filter_failed_tree e.path.segments⟩
  · rw [map_line_tree, hmessages, ← mergeRuns_eq_destutter, ← causeLines_eq hmerged, ← logLines_eq]
    simp only [describe, reportLines, List.append_assoc, List.cons_append, List.nil_append]
  · rw [tree, List.map_cons, map_name_below]
  · exact map_level_tree e.path.segments
  · exact List.drop_suffix _ _

/-- Two levels down, with a cause that says what the one before it says. -/
example : (failed "boom" (.ofSegments [.key "a", .index 2]) (.action "boom" ["boom", "reset"]) [] []).describe =
    "boom\n  Error occurred at: $.a[2]\n\n  $\n  └── a\n      └── [2]  <-- failed here\n\n" ++
      "  Caused by:\n    0: boom\n    1: reset\n" := by decide

/-- A failure at the root. -/
def rootFailure : ExecutionError := .failed "boom" .root (.action "boom" []) [] []

/-- The root is not marked, although it is the last node. -/
theorem unmarked_at_root : ¬∃ tree chain shown, rootFailure.Reports tree chain shown ∧
    tree.filter Node.failed = tree.getLast?.toList := by
  rintro ⟨tree, chain, shown, h, hmarked⟩
  have hchain : Fault.Chain (.wrapped rootFailure) [.inside (.action "boom" [])] := .behind rfl (.last rfl)
  obtain rfl := h.causes.unique hchain
  obtain rfl : shown = [] := List.suffix_nil.1 h.newest
  obtain ⟨⟨level, name, marked⟩, rfl, rfl : name = "$"⟩ := List.map_eq_singleton_iff.1 h.names
  obtain rfl : level = 0 := (List.cons.inj h.levels).1
  obtain rfl : marked = true := by simpa using hmarked
  exact absurd h.text (by decide)

end ExecutionError

end MediaQuery
