import MediaQuery.Proofs.Query.Checked
import MediaQuery.Proofs.Value.Json

/-!
# Values without what is excluded

The exclusion marker drops the item or the entry that holds it. It can be dropped from the value (`Value.prune`), and
it is dropped where a value is written as JSON and read again (`Value.reread`). Both are ways to clear a value
(`Value.Clears`): what is a scalar stays as it is, a list becomes the list of its other items, and in a map each name is
found as before, unless its entry is excluded. What can be read off a cleared value is therefore told from the value
alone (`Clears.get?`, `Clears.read`), whichever way it was cleared.
-/

namespace MediaQuery.Value

mutual

/-- The value without its excluded items and entries, at every depth. -/
def prune : Value → Value
  | .list items => .list (pruneItems items)
  | .map entries => .map (pruneEntries entries)
  | v => v

/-- The items that are not excluded, pruned. -/
def pruneItems : List Value → List Value
  | [] => []
  | v :: rest => if v.isExclude then pruneItems rest else v.prune :: pruneItems rest

/-- The entries that are not excluded, pruned. -/
def pruneEntries : List (String × Value) → List (String × Value)
  | [] => []
  | (key, v) :: rest => if v.isExclude then pruneEntries rest else (key, v.prune) :: pruneEntries rest

end

/-- The value that is read back from the JSON form. -/
def reread (v : Value) : Value := ofJson v.toJson

/-! ## All parts of a value -/

mutual

/-- A property of the value, of its items and entries, and of theirs. -/
def Throughout (P : Value → Prop) : Value → Prop
  | .list items => P (.list items) ∧ throughoutItems P items
  | .map entries => P (.map entries) ∧ throughoutEntries P entries
  | v => P v

/-- The same for the items of a list. -/
def throughoutItems (P : Value → Prop) : List Value → Prop
  | [] => True
  | v :: rest => v.Throughout P ∧ throughoutItems P rest

/-- The same for the entries of a map. -/
def throughoutEntries (P : Value → Prop) : List (String × Value) → Prop
  | [] => True
  | (_, v) :: rest => v.Throughout P ∧ throughoutEntries P rest

end

section

variable {P : Value → Prop} {v : Value} {items : List Value} {entries : List (String × Value)}

theorem Throughout.own (h : v.Throughout P) : P v := by
  cases v with
  | list items =>
    unfold Throughout at h
    exact h.1
  | map entries =>
    unfold Throughout at h
    exact h.1
  | _ =>
    unfold Throughout at h
    exact h

theorem throughoutItems_iff : throughoutItems P items ↔ ∀ v ∈ items, v.Throughout P := by
  induction items with
  | nil =>
    unfold throughoutItems
    simp
  | cons v rest ih =>
    unfold throughoutItems
    rw [ih, List.forall_mem_cons]

theorem throughoutEntries_iff : throughoutEntries P entries ↔ ∀ e ∈ entries, e.2.Throughout P := by
  induction entries with
  | nil =>
    unfold throughoutEntries
    simp
  | cons e rest ih =>
    obtain ⟨key, v⟩ := e
    unfold throughoutEntries
    rw [ih, List.forall_mem_cons]

theorem Throughout.item (h : (Value.list items).Throughout P) (hv : v ∈ items) : v.Throughout P := by
  unfold Throughout at h
  exact throughoutItems_iff.1 h.2 v hv

theorem Throughout.entry {key : String} (h : (Value.map entries).Throughout P) (hv : entries.lookup key = some v) :
    v.Throughout P := by
  unfold Throughout at h
  exact throughoutEntries_iff.1 h.2 _ (Fields.mem_of_lookup hv)

end

/-! ## Clearing -/

/-- A way to clear values, at least those of a kind. -/
structure Clears (P : Value → Prop) (f : Value → Value) : Prop where
  item : ∀ {items v}, P (.list items) → v ∈ items → P v
  entry : ∀ {entries key v}, P (.map entries) → entries.lookup key = some v → P v
  scalar : ∀ {v}, P v → v.isExclude = false → v.asList? = none → v.asMap? = none → f v = v
  list : ∀ {items}, P (.list items) → f (.list items) = .list ((items.filter (!·.isExclude)).map f)
  map : ∀ {entries}, P (.map entries) → ∃ cleared, f (.map entries) = .map cleared ∧
    ∀ key, cleared.lookup key = ((entries.lookup key).filter (!·.isExclude)).map f
  exclude : (f .exclude).asMap? = none
  toJson : ∀ {v}, P v → (f v).toJson = v.toJson

namespace Clears

variable {P : Value → Prop} {f : Value → Value} {v : Value} {β : Type}

/-- What is the same for all lists and the same for all maps is the same for a value that is cleared. -/
theorem read (hf : Clears P f) (hv : P v) (he : v.isExclude = false) (g : Value → β)
    (hlist : ∀ items items', g (.list items) = g (.list items'))
    (hmap : ∀ entries entries', g (.map entries) = g (.map entries')) : g (f v) = g v := by
  cases v with
  | list items =>
    rw [hf.list hv]
    exact hlist _ _
  | map entries =>
    obtain ⟨cleared, hcleared, -⟩ := hf.map hv
    rw [hcleared]
    exact hmap _ _
  | _ => rw [hf.scalar hv he rfl rfl]

theorem isExclude (hf : Clears P f) (hv : P v) (he : v.isExclude = false) : (f v).isExclude = false :=
  (hf.read hv he Value.isExclude (fun _ _ => rfl) fun _ _ => rfl).trans he

/-- Only a map is cleared to a map. -/
theorem asMap?_isNone (hf : Clears P f) (hv : P v) : (f v).asMap?.isNone = v.asMap?.isNone := by
  cases he : v.isExclude with
  | true =>
    obtain rfl : v = .exclude := by cases v <;> first | rfl | cases he
    rw [hf.exclude]
    rfl
  | false => exact hf.read hv he (fun v => v.asMap?.isNone) (fun _ _ => rfl) fun _ _ => rfl

/-- **In a cleared value each name is found as before, unless its entry is excluded.** -/
theorem get? (hf : Clears P f) (hv : P v) (key : String) :
    (f v).get? key = ((v.get? key).filter (!·.isExclude)).map f := by
  by_cases hmap : ∃ entries, v = .map entries
  · obtain ⟨entries, rfl⟩ := hmap
    obtain ⟨cleared, hcleared, hlookup⟩ := hf.map hv
    rw [hcleared]
    exact hlookup key
  · have hnone {w : Value} (hw : w.asMap?.isNone = true) : w.get? key = none := by
      cases w with
      | map entries => cases hw
      | _ => rfl
    have hv' : v.asMap?.isNone = true := by
      cases h : v.asMap?.isNone with
      | true => rfl
      | false => exact absurd (asMap?_isNone_eq_false_iff.1 h) hmap
    rw [hnone hv', hnone ((hf.asMap?_isNone hv).trans hv')]
    rfl

theorem get?_prop (hf : Clears P f) (hv : P v) {key : String} {entry : Value} (h : v.get? key = some entry) :
    P entry := by
  cases v with
  | map entries => exact hf.entry hv h
  | _ => cases h

/-- A reading that finds nothing in lists, maps and excluded entries finds the same in the entry of a cleared value. -/
theorem get?_bind (hf : Clears P f) (hv : P v) (key : String) (g : Value → Option β)
    (hlist : ∀ items, g (.list items) = none) (hmap : ∀ entries, g (.map entries) = none)
    (hexclude : g .exclude = none) :
    ((f v).get? key).bind g = (v.get? key).bind g := by
  rw [hf.get? hv]
  cases hentry : v.get? key with
  | none => rfl
  | some entry =>
    cases he : entry.isExclude with
    | true =>
      obtain rfl : entry = .exclude := by cases entry <;> first | rfl | cases he
      exact hexclude.symm
    | false =>
      rw [Option.filter_some, he]
      exact hf.read (hf.get?_prop hv hentry) he g (fun _ _ => (hlist _).trans (hlist _).symm)
        fun _ _ => (hmap _).trans (hmap _).symm

end Clears

/-! ## Pruning -/

theorem pruneItems_eq (items : List Value) : pruneItems items = (items.filter (!·.isExclude)).map prune :=
  eq_map_filter (by rw [pruneItems]) (fun _ _ => by rw [pruneItems]) items

theorem pruneEntries_eq (entries : List (String × Value)) :
    pruneEntries entries = (entries.filter (!·.2.isExclude)).map fun e => (e.1, e.2.prune) :=
  eq_map_filter (by rw [pruneEntries]) (fun _ _ => by rw [pruneEntries]) entries

theorem names_pruneEntries_sublist (entries : List (String × Value)) :
    (Fields.names (pruneEntries entries)).Sublist (Fields.names entries) := by
  rw [pruneEntries_eq, Fields.names_map]
  exact List.filter_sublist.map Prod.fst

theorem lookup_pruneEntries {entries : List (String × Value)} (hd : (Fields.names entries).Nodup) (key : String) :
    (pruneEntries entries).lookup key = ((entries.lookup key).filter (!·.isExclude)).map prune := by
  rw [pruneEntries_eq, Fields.lookup_map, Fields.lookup_filter_values hd fun v => !v.isExclude]

/-- What is not excluded is not after pruning. -/
theorem isExclude_prune (v : Value) : v.prune.isExclude = v.isExclude := by
  cases v <;> simp only [prune] <;> rfl

/-- After pruning nothing more is left out. -/
theorem filter_pruneItems (items : List Value) : (pruneItems items).filter (!·.isExclude) = pruneItems items := by
  rw [pruneItems_eq, List.filter_eq_self, List.forall_mem_map]
  exact fun v hv => by rw [isExclude_prune, (List.mem_filter.1 hv).2]

theorem filter_pruneEntries (entries : List (String × Value)) :
    (pruneEntries entries).filter (!·.2.isExclude) = pruneEntries entries := by
  rw [pruneEntries_eq, List.filter_eq_self, List.forall_mem_map]
  exact fun e he => by rw [isExclude_prune, (List.mem_filter.1 he).2]

/-- What is the same for all that is kept in a list is the same for the pruned list. -/
theorem map_pruneItems {β : Type} {f : Value → β} {items : List Value} (h : ∀ v ∈ items, f v.prune = f v) :
    ((pruneItems items).filter (!·.isExclude)).map f = (items.filter (!·.isExclude)).map f := by
  rw [filter_pruneItems, pruneItems_eq, List.map_map]
  exact List.map_congr_left fun v hv => h v (List.mem_of_mem_filter hv)

theorem map_pruneEntries {β : Type} {f : Value → β} {entries : List (String × Value)}
    (h : ∀ e ∈ entries, f e.2.prune = f e.2) :
    ((pruneEntries entries).filter (!·.2.isExclude)).map (fun e => (e.1, f e.2)) =
      (entries.filter (!·.2.isExclude)).map fun e => (e.1, f e.2) := by
  rw [filter_pruneEntries, pruneEntries_eq, List.map_map]
  exact List.map_congr_left fun e he => Prod.ext rfl (h e (List.mem_of_mem_filter he))

/-- **Pruning does not change the JSON form.** -/
theorem toJson_prune (v : Value) : v.prune.toJson = v.toJson := by
  induction v using induct with
  | list items ih =>
    simp only [prune, toJson]
    rw [toJsonItems_eq, toJsonItems_eq, map_pruneItems ih]
  | map entries ih =>
    simp only [prune, toJson]
    rw [toJsonMembers_eq, toJsonMembers_eq, map_pruneEntries ih]
  | _ => simp only [prune]

/-- The same for the form that keeps the order of maps. -/
theorem wire_prune (v : Value) : v.prune.wire = v.wire := by
  induction v using induct with
  | list items ih =>
    simp only [prune, wire]
    rw [wireItems_eq, wireItems_eq, map_pruneItems ih]
  | map entries ih =>
    simp only [prune, wire]
    rw [wireMembers_eq, wireMembers_eq, map_pruneEntries ih]
  | _ => simp only [prune]

/-- Pruning clears values whose maps have distinct names. -/
theorem clears_prune : Clears (Throughout HasDistinctNames) prune where
  item h hv := h.item hv
  entry h hv := h.entry hv
  scalar {v} _ _ hlist hmap := by
    cases v with
    | list items => cases hlist
    | map entries => cases hmap
    | _ => simp only [prune]
  list _ := by rw [prune, pruneItems_eq]
  map {entries} h := ⟨pruneEntries entries, by rw [prune], lookup_pruneEntries (h.own entries rfl)⟩
  exclude := by
    simp only [prune]
    rfl
  toJson {v} _ := toJson_prune v

section

variable {P : Value → Prop}

/-- What holds throughout a value does so after pruning, if it outlives what is dropped from lists and maps. -/
theorem Throughout.prune (hlist : ∀ items, P (.list items) → P (.list (pruneItems items)))
    (hmap : ∀ entries, P (.map entries) → P (.map (pruneEntries entries))) (v : Value) (h : v.Throughout P) :
    v.prune.Throughout P := by
  induction v using Value.induct with
  | list items ih =>
    unfold Throughout at h
    rw [Value.prune, Throughout]
    refine ⟨hlist items h.1, throughoutItems_iff.2 ?_⟩
    rw [pruneItems_eq]
    exact List.forall_mem_map.2 fun v hv =>
      ih v (List.mem_of_mem_filter hv) (throughoutItems_iff.1 h.2 v (List.mem_of_mem_filter hv))
  | map entries ih =>
    unfold Throughout at h
    rw [Value.prune, Throughout]
    refine ⟨hmap entries h.1, throughoutEntries_iff.2 ?_⟩
    rw [pruneEntries_eq]
    exact List.forall_mem_map.2 fun e he =>
      ih e (List.mem_of_mem_filter he) (throughoutEntries_iff.1 h.2 e (List.mem_of_mem_filter he))
  | _ => simpa only [Value.prune] using h

end

theorem hasDistinctNames_prune {v : Value} (h : v.Throughout HasDistinctNames) :
    v.prune.Throughout HasDistinctNames := by
  refine Throughout.prune (fun items _ other hother => by cases hother) (fun entries hentries other hother => ?_) v h
  obtain rfl := Option.some.inj hother
  exact (names_pruneEntries_sublist entries).nodup (hentries entries rfl)

/-! ## Writing and reading back -/

/-- What is written is exact. -/
theorem exact_toJson (v : Value) : v.toJson.Exact := by
  induction v using induct with
  | integer n =>
    simp only [toJson, Json.Exact]
    exact ⟨n.le_toInt, Int.le_of_lt_add_one n.toInt_lt⟩
  | number x =>
    simp only [toJson, jsonOfFloat]
    split
    · next hfinite => simpa only [Json.Exact] using hfinite
    · simp only [Json.Exact]
  | list items ih =>
    simp only [toJson, Json.Exact]
    rw [Json.exactItems_iff, toJsonItems_eq]
    exact List.forall_mem_map.2 fun v hv => ih v (List.mem_of_mem_filter hv)
  | map entries ih =>
    simp only [toJson, Json.object, Json.Exact]
    refine ⟨Fields.sorted_sort _, Json.exactMembers_iff.2 fun e he => ?_⟩
    have he := Fields.mem_sort he
    rw [toJsonMembers_eq] at he
    obtain ⟨entry, hentry, rfl⟩ := List.mem_map.1 he
    exact ih entry (List.mem_of_mem_filter hentry)
  | _ => simp only [toJson, Json.Exact]

/-- **What is read back has the same JSON form.** -/
theorem toJson_reread (v : Value) : v.reread.toJson = v.toJson := Json.toJson_ofJson _ (exact_toJson v)

/-- A value for which JSON has a form of its own, which is neither text nor null for want of it. -/
def IsPlain : Value → Prop
  | .number x => Decimal.isFinite x = true
  | .date _ => False
  | .selection _ => False
  | _ => True

theorem isPlain_prune {v : Value} (h : v.Throughout IsPlain) : v.prune.Throughout IsPlain :=
  Throughout.prune (fun _ _ => trivial) (fun _ _ => trivial) v h

theorem reread_prune (v : Value) : v.prune.reread = v.reread := congrArg ofJson (toJson_prune v)

theorem ofJsonItems_toJsonItems (items : List Value) :
    ofJsonItems (toJsonItems items) = (items.filter (!·.isExclude)).map reread := by
  rw [ofJsonItems_eq, toJsonItems_eq, List.map_map]
  rfl

theorem lookup_ofJsonMembers (members : List (String × Json)) (key : String) :
    (ofJsonMembers members).lookup key = (members.lookup key).map ofJson := by
  rw [ofJsonMembers_eq, Fields.lookup_map]

theorem reread_eq_self {v : Value} (hplain : v.IsPlain) (he : v.isExclude = false) (hlist : v.asList? = none)
    (hmap : v.asMap? = none) : v.reread = v := by
  unfold reread
  cases v with
  | list items => cases hlist
  | map entries => cases hmap
  | exclude => cases he
  | date t => cases hplain
  | selection s => cases hplain
  | integer n =>
    have hexact := exact_toJson (.integer n)
    simp only [toJson, Json.Exact] at hexact
    simp only [toJson, ofJson]
    rw [if_pos hexact, Int64.ofInt_toInt]
  | number x =>
    have hfinite : Decimal.isFinite x = true := hplain
    simp only [toJson, jsonOfFloat]
    rw [if_pos hfinite, ofJson]
  | _ => simp only [toJson, ofJson]

/-- Reading back clears plain values whose maps have distinct names. -/
theorem clears_reread : Clears (fun v => v.Throughout HasDistinctNames ∧ v.Throughout IsPlain) reread where
  item h hv := ⟨h.1.item hv, h.2.item hv⟩
  entry h hv := ⟨h.1.entry hv, h.2.entry hv⟩
  scalar h := reread_eq_self h.2.own
  list {items} _ := by rw [reread, toJson, ofJson, ofJsonItems_toJsonItems]
  map {entries} h := by
    have hd : (Fields.names entries).Nodup := h.1.own entries rfl
    refine ⟨ofJsonMembers (Fields.sort (toJsonMembers entries)), by rw [reread, toJson, Json.object, ofJson],
      fun key => ?_⟩
    rw [lookup_ofJsonMembers, Fields.lookup_sort ((names_toJsonMembers_sublist entries).nodup hd),
      lookup_toJsonMembers hd, Option.map_map]
    rfl
  exclude := by
    simp only [reread, toJson, ofJson]
    rfl
  toJson {v} _ := toJson_reread v

end MediaQuery.Value
