import Mathlib.Data.List.Induction
import PointerQuery.Facts
import PointerQuery.Proofs.Ascending

namespace PointerQuery

namespace Multimap

variable {α β : Type} [Ord α] [Std.TransOrd α] [Ord β] [Std.TransOrd β]

/-- The map after pairs were inserted one after another. -/
def insertAll (pairs : List (α × β)) : Multimap α β :=
  pairs.foldl (fun m p => (m.insert p.1 p.2).2) {}

/-- Each key with a list of its cells. -/
def rows (m : Multimap α β) : List (α × List β) :=
  m.cells.toList.map fun e => (e.1, e.2.toList)

/-- Pairs in rows: the keys ascend, and so do the cells of each key, of which there is at least one. -/
structure IsRows (rows : List (α × List β)) (pairs : List (α × β)) : Prop where
  keys : Ascending (rows.map Prod.fst)
  cells : ∀ k vs, (k, vs) ∈ rows → vs ≠ [] ∧ Ascending vs
  mem_iff : ∀ k v, (k, v) ∈ pairs ↔ ∃ vs, (k, vs) ∈ rows ∧ v ∈ vs

/-- A line for the key of each row, followed by an indented line for each of its cells. -/
def rowsText (key : α → String) (cell : β → String) (rows : List (α × List β)) : String :=
  String.join <| rows.map fun r => key r.1 ++ "\n" ++ String.join (r.2.map fun v => "\t->" ++ cell v ++ "\n")

/-- The map has the cells that some pairs give to their keys, and no key without a cell. -/
structure Reflects (m : Multimap α β) (pairs : List (α × β)) : Prop where
  contains_iff : ∀ k v, m.contains k v = true ↔ (k, v) ∈ pairs
  exists_mem : ∀ k s, m.get? k = some s → ∃ v, v ∈ s

/-- All that can be asked of a map, read off the pairs that were inserted. -/
structure Canonical (m : Multimap α β) (pairs : List (α × β)) : Prop extends Reflects m pairs where
  /-- A further insertion tells whether its pair is new. -/
  insert_iff : ∀ k v, (m.insert k v).1 = true ↔ (k, v) ∉ pairs
  get?_eq_none_iff : ∀ k, m.get? k = none ↔ ∀ v, (k, v) ∉ pairs
  get?_eq_some : ∀ k s, m.get? k = some s →
    s.toList ≠ [] ∧ Ascending s.toList ∧ ∀ v, v ∈ s.toList ↔ (k, v) ∈ pairs
  sizeOf_eq : ∀ k, m.sizeOf k = {v | (k, v) ∈ pairs}.encard
  numKeys_eq : m.numKeys = {k | ∃ v, (k, v) ∈ pairs}.encard
  exists_rows : ∃ rows, IsRows rows pairs
  render_eq : ∀ rows, IsRows rows pairs → ∀ key cell, m.render key cell = rowsText key cell rows

theorem contains_iff_exists (m : Multimap α β) (k : α) (v : β) :
    m.contains k v = true ↔ ∃ s, m.get? k = some s ∧ v ∈ s := by
  rw [contains, Option.any_eq_true]
  simp only [Std.ExtTreeSet.contains_iff_mem]

theorem contains_getD (m : Multimap α β) (k : α) (v : β) :
    (m.cells.getD k ∅).contains v = m.contains k v := by
  rw [Std.ExtTreeMap.getD_eq_getD_getElem?, contains, get?]
  cases m.cells[k]? with
  | none => simp
  | some s => rfl

theorem insert_fst (m : Multimap α β) (k : α) (v : β) : (m.insert k v).1 = !m.contains k v := by
  rw [insert, contains_getD]

theorem get?_insert (m : Multimap α β) (k : α) (v : β) (k' : α) :
    (m.insert k v).2.get? k' =
      if compare k k' = .eq then some ((m.cells.getD k ∅).insert v) else m.get? k' := by
  simp only [insert, get?, Std.ExtTreeMap.getElem?_insert]

theorem render_eq_rowsText (m : Multimap α β) (key : α → String) (cell : β → String) :
    m.render key cell = rowsText key cell m.rows := by
  rw [rowsText, rows, List.map_map]
  rfl

theorem mem_rows_iff [Std.LawfulEqOrd α] {m : Multimap α β} {k : α} {vs : List β} :
    (k, vs) ∈ m.rows ↔ ∃ s, m.get? k = some s ∧ s.toList = vs := by
  simp only [rows, List.mem_map, Prod.mk.injEq, Prod.exists, Std.ExtTreeMap.mem_toList_iff_getElem?_eq_some, get?]
  constructor
  · rintro ⟨_, s, hs, rfl, rfl⟩
    exact ⟨s, hs, rfl⟩
  · rintro ⟨s, hs, rfl⟩
    exact ⟨k, s, hs, rfl, rfl⟩

namespace Reflects

variable {m : Multimap α β} {pairs : List (α × β)} (hm : m.Reflects pairs)

include hm

theorem mem_iff {k : α} {s : Std.ExtTreeSet β} (hs : m.get? k = some s) (v : β) : v ∈ s ↔ (k, v) ∈ pairs := by
  rw [← hm.contains_iff, contains_iff_exists]
  constructor
  · intro hv
    exact ⟨s, hs, hv⟩
  · rintro ⟨s', hs', hv⟩
    obtain rfl : s = s' := Option.some.inj (hs.symm.trans hs')
    exact hv

theorem isSome_get?_iff (k : α) : (m.get? k).isSome = true ↔ ∃ v, (k, v) ∈ pairs := by
  rw [Option.isSome_iff_exists]
  constructor
  · rintro ⟨s, hs⟩
    obtain ⟨v, hv⟩ := hm.exists_mem k s hs
    exact ⟨v, (hm.mem_iff hs v).mp hv⟩
  · rintro ⟨v, hv⟩
    obtain ⟨s, hs, _⟩ := (m.contains_iff_exists k v).mp ((hm.contains_iff k v).mpr hv)
    exact ⟨s, hs⟩

theorem get?_eq_none_iff (k : α) : m.get? k = none ↔ ∀ v, (k, v) ∉ pairs := by
  rw [← Option.isNone_iff_eq_none, ← Option.isSome_eq_false_iff, ← Bool.not_eq_true, hm.isSome_get?_iff, not_exists]

/-- The cells of a key as a list. -/
theorem toList_get? [Std.LawfulEqOrd β] {k : α} {s : Std.ExtTreeSet β} (hs : m.get? k = some s) :
    s.toList ≠ [] ∧ Ascending s.toList ∧ ∀ v, v ∈ s.toList ↔ (k, v) ∈ pairs := by
  have hmem (v : β) : v ∈ s.toList ↔ (k, v) ∈ pairs := by
    rw [Std.ExtTreeSet.mem_toList, hm.mem_iff hs]
  obtain ⟨v, hv⟩ := hm.exists_mem k s hs
  exact ⟨List.ne_nil_of_mem (Std.ExtTreeSet.mem_toList.mpr hv), Std.ExtTreeSet.ordered_toList, hmem⟩

theorem sizeOf_eq [Std.LawfulEqOrd β] (k : α) : m.sizeOf k = {v | (k, v) ∈ pairs}.encard := by
  rw [sizeOf]
  cases hs : m.get? k with
  | none =>
    have hempty : {v | (k, v) ∈ pairs} = ∅ := Set.eq_empty_iff_forall_notMem.mpr ((hm.get?_eq_none_iff k).mp hs)
    rw [hempty, Set.encard_empty]
    rfl
  | some s =>
    obtain ⟨_, hascending, hmem⟩ := hm.toList_get? hs
    have hcount : {v | (k, v) ∈ pairs}.encard = s.toList.length :=
      encard_eq_length hascending.nodup fun v => (hmem v).symm
    rw [hcount, Std.ExtTreeSet.length_toList]
    rfl

theorem numKeys_eq [Std.LawfulEqOrd α] : m.numKeys = {k | ∃ v, (k, v) ∈ pairs}.encard := by
  have hascending : Ascending m.cells.keys := Std.ExtTreeMap.ordered_keys
  have hmem (k : α) : k ∈ {k | ∃ v, (k, v) ∈ pairs} ↔ k ∈ m.cells.keys := by
    rw [Std.ExtTreeMap.mem_keys, Std.ExtTreeMap.mem_iff_isSome_getElem?]
    exact (hm.isSome_get?_iff k).symm
  rw [encard_eq_length hascending.nodup hmem, Std.ExtTreeMap.length_keys, numKeys]

theorem isRows [Std.LawfulEqOrd α] [Std.LawfulEqOrd β] : IsRows m.rows pairs where
  keys := by
    have hkeys : m.rows.map Prod.fst = m.cells.keys := by
      rw [rows, List.map_map]
      exact Std.ExtTreeMap.map_fst_toList_eq_keys
    rw [hkeys]
    exact Std.ExtTreeMap.ordered_keys
  cells k vs h := by
    obtain ⟨s, hs, rfl⟩ := mem_rows_iff.mp h
    obtain ⟨hne, hascending, _⟩ := hm.toList_get? hs
    exact ⟨hne, hascending⟩
  mem_iff k v := by
    rw [← hm.contains_iff, contains_iff_exists]
    constructor
    · rintro ⟨s, hs, hv⟩
      exact ⟨s.toList, mem_rows_iff.mpr ⟨s, hs, rfl⟩, Std.ExtTreeSet.mem_toList.mpr hv⟩
    · rintro ⟨vs, hvs, hv⟩
      obtain ⟨s, hs, rfl⟩ := mem_rows_iff.mp hvs
      exact ⟨s, hs, Std.ExtTreeSet.mem_toList.mp hv⟩

end Reflects

namespace IsRows

variable {rows rows' : List (α × List β)} {pairs : List (α × β)}

omit [Std.TransOrd β] in
theorem mem_cells_iff (h : IsRows rows pairs) {k : α} {vs : List β} (hvs : (k, vs) ∈ rows) (v : β) :
    v ∈ vs ↔ (k, v) ∈ pairs := by
  rw [h.mem_iff]
  constructor
  · intro hv
    exact ⟨vs, hvs, hv⟩
  · rintro ⟨ws, hws, hv⟩
    have heq := List.inj_on_of_nodup_map h.keys.nodup hvs hws rfl
    rw [(Prod.mk.inj heq).2]
    exact hv

theorem mem_of_mem (h : IsRows rows pairs) (h' : IsRows rows' pairs) {r : α × List β} (hr : r ∈ rows) :
    r ∈ rows' := by
  obtain ⟨k, vs⟩ := r
  obtain ⟨hne, hascending⟩ := h.cells k vs hr
  obtain ⟨v, hv⟩ := List.exists_mem_of_ne_nil vs hne
  obtain ⟨ws, hws, _⟩ := (h'.mem_iff k v).mp ((h.mem_cells_iff hr v).mp hv)
  have heq : vs = ws := by
    refine Ascending.eq_of_mem_iff id ?_ ?_ fun x => (h.mem_cells_iff hr x).trans (h'.mem_cells_iff hws x).symm
    · rw [List.map_id]
      exact hascending
    · rw [List.map_id]
      exact (h'.cells k ws hws).2
  rw [heq]
  exact hws

theorem unique (h : IsRows rows pairs) (h' : IsRows rows' pairs) : rows = rows' :=
  Ascending.eq_of_mem_iff Prod.fst h.keys h'.keys fun _ => ⟨h.mem_of_mem h', h'.mem_of_mem h⟩

end IsRows

variable [Std.LawfulEqOrd α] [Std.LawfulEqOrd β]

theorem contains_insert_iff (m : Multimap α β) (k : α) (v : β) (k' : α) (v' : β) :
    (m.insert k v).2.contains k' v' = true ↔ m.contains k' v' = true ∨ (k', v') = (k, v) := by
  rw [contains, get?_insert]
  split
  · rename_i hk
    obtain rfl := Std.compare_eq_iff_eq.mp hk
    rw [Option.any_some, Std.ExtTreeSet.contains_insert, contains_getD]
    simp only [Bool.or_eq_true, beq_iff_eq, Std.compare_eq_iff_eq, Prod.mk.injEq, true_and]
    rw [or_comm, @eq_comm _ v]
  · rename_i hk
    have hne : ¬(k', v') = (k, v) := by
      intro h
      rw [(Prod.mk.inj h).1, Std.compare_self] at hk
      exact hk rfl
    rw [or_iff_left hne, contains]

/-- What an insertion keeps. -/
theorem Reflects.insert {m : Multimap α β} {pairs : List (α × β)} (hm : m.Reflects pairs) (k : α) (v : β) :
    (m.insert k v).2.Reflects (pairs ++ [(k, v)]) where
  contains_iff k' v' := by
    rw [contains_insert_iff, hm.contains_iff, List.mem_append, List.mem_singleton]
  exists_mem k' s hs := by
    rw [get?_insert] at hs
    split at hs
    · obtain rfl := Option.some.inj hs
      exact ⟨v, Std.ExtTreeSet.mem_insert_self⟩
    · exact hm.exists_mem k' s hs

theorem reflects_insertAll (pairs : List (α × β)) : (insertAll pairs).Reflects pairs := by
  induction pairs using List.reverseRecOn with
  | nil =>
    have hnone (k : α) : (insertAll ([] : List (α × β))).get? k = none := Std.ExtTreeMap.getElem?_empty
    refine ⟨fun k v => ?_, fun k s hs => ?_⟩
    · rw [contains_iff_exists]
      simp [hnone]
    · exact absurd ((hnone k).symm.trans hs) nofun
  | append_singleton pairs p ih =>
    have hstep : insertAll (pairs ++ [p]) = ((insertAll pairs).insert p.1 p.2).2 := by
      rw [insertAll, List.foldl_append]
      rfl
    rw [hstep]
    exact ih.insert p.1 p.2

theorem Reflects.canonical {m : Multimap α β} {pairs : List (α × β)} (hm : m.Reflects pairs) :
    m.Canonical pairs where
  toReflects := hm
  insert_iff k v := by
    rw [insert_fst, Bool.not_eq_true', ← Bool.not_eq_true, hm.contains_iff]
  get?_eq_none_iff := hm.get?_eq_none_iff
  get?_eq_some k s := hm.toList_get?
  sizeOf_eq := hm.sizeOf_eq
  numKeys_eq := hm.numKeys_eq
  exists_rows := ⟨m.rows, hm.isRows⟩
  render_eq rows hrows key cell := by
    rw [hrows.unique hm.isRows, render_eq_rowsText]

/-- A map is determined by the set of its pairs. -/
theorem Reflects.eq_iff {m m' : Multimap α β} {pairs pairs' : List (α × β)} (hm : m.Reflects pairs)
    (hm' : m'.Reflects pairs') : m = m' ↔ ∀ p, p ∈ pairs ↔ p ∈ pairs' := by
  constructor
  · rintro rfl ⟨k, v⟩
    rw [← hm.contains_iff, hm'.contains_iff]
  · intro hpairs
    have hget (k : α) : m.get? k = m'.get? k := by
      cases hs : m.get? k with
      | none =>
        refine ((hm'.get?_eq_none_iff k).mpr fun v hv => ?_).symm
        exact (hm.get?_eq_none_iff k).mp hs v ((hpairs (k, v)).mpr hv)
      | some s =>
        have hsome : (m'.get? k).isSome = true := by
          rw [hm'.isSome_get?_iff]
          obtain ⟨v, hv⟩ := hm.exists_mem k s hs
          exact ⟨v, (hpairs (k, v)).mp ((hm.mem_iff hs v).mp hv)⟩
        obtain ⟨s', hs'⟩ := Option.isSome_iff_exists.mp hsome
        rw [hs']
        refine congrArg some (Std.ExtTreeSet.ext_mem fun v => ?_)
        rw [hm.mem_iff hs, hm'.mem_iff hs', hpairs]
    cases m
    cases m'
    exact congrArg Multimap.mk (Std.ExtTreeMap.ext_getElem? hget)

end Multimap

namespace Facts

/-- A call that brings targets of a value into the store, one or several. -/
inductive Delivery where
  | one (value : ValueId) (target : Target)
  | many (value : ValueId) (targets : List Target)

namespace Delivery

def pairs : Delivery → List (ValueId × Target)
  | one value target => [(value, target)]
  | many value targets => targets.map fun target => (value, target)

def run (f : Facts) : Delivery → Logged Facts
  | one value target => f.add value target
  | many value targets => f.addAll value targets

end Delivery

/-- The store after a run of deliveries. -/
def ofDeliveries (deliveries : List Delivery) : Logged Facts :=
  deliveries.foldlM Delivery.run {}

theorem value_add (f : Facts) (value : ValueId) (target : Target) :
    (f.add value target).value = (f.insert value target).2 := by
  unfold add
  generalize Multimap.insert f value target = r
  obtain ⟨fresh, g⟩ := r
  cases fresh <;> rfl

theorem value_addAll (f : Facts) (value : ValueId) (targets : List Target) :
    (f.addAll value targets).value = targets.foldl (fun f t => (f.insert value t).2) f := by
  induction targets generalizing f with
  | nil => rfl
  | cons t targets ih => rw [addAll, Logged.value_bind, ih, value_add, List.foldl_cons]

theorem value_run (f : Facts) (d : Delivery) :
    (d.run f).value = d.pairs.foldl (fun f p => (f.insert p.1 p.2).2) f := by
  cases d with
  | one value target => exact f.value_add value target
  | many value targets => rw [Delivery.run, value_addAll, Delivery.pairs, List.foldl_map]

theorem value_ofDeliveries (deliveries : List Delivery) :
    (ofDeliveries deliveries).value = Multimap.insertAll (deliveries.flatMap Delivery.pairs) := by
  rw [ofDeliveries, Multimap.insertAll]
  generalize ({} : Facts) = f
  induction deliveries generalizing f with
  | nil => rfl
  | cons d deliveries ih =>
    rw [List.foldlM_cons, Logged.value_bind, ih, value_run, List.flatMap_cons, List.foldl_append]

end Facts

theorem Offset.compare_known (a b : Word) : compare (Offset.known a) (.known b) = compare a b := rfl

theorem Offset.compare_known_unknown (a : Word) : compare (Offset.known a) .unknown = .lt := rfl

theorem Target.compare_eq_iff_parts (s t : Target) :
    compare s t = .eq ↔ s.site? = t.site? ∧ s.offset = t.offset ∧ s.state = t.state ∧ s.size? = t.size? ∧
      s.owner? = t.owner? := by
  constructor
  · intro h
    obtain rfl := Std.compare_eq_iff_eq.mp h
    exact ⟨rfl, rfl, rfl, rfl, rfl⟩
  · rintro ⟨hsite, hoffset, hstate, hsize, howner⟩
    exact Std.compare_eq_iff_eq.mpr (eq_of_keys_eq hsite hoffset hstate hsize howner)

/-- Maps of sets, for any keys and cells with an order that separates them: after any run of insertions, all that
can be asked is read off the pairs that were inserted, and two runs give the same map just if they inserted the same
pairs. This holds of fact stores and their deliveries, one target or several at a time, since the order on targets is
such an order: it compares site, offset, state, size and owner in sequence, offsets by their bytes and an unknown one
last, it is total, and it takes two targets as equal only if all five parts agree, which makes them one target. -/
theorem fact_store_canonical :
    (∀ (α β : Type) [Ord α] [Std.TransOrd α] [Std.LawfulEqOrd α] [Ord β] [Std.TransOrd β] [Std.LawfulEqOrd β]
      (pairs pairs' : List (α × β)), (Multimap.insertAll pairs).Canonical pairs ∧
        (Multimap.insertAll pairs = Multimap.insertAll pairs' ↔ ∀ p, p ∈ pairs ↔ p ∈ pairs')) ∧
    (∀ ds es : List Facts.Delivery,
      (Facts.ofDeliveries ds).value.Canonical (ds.flatMap Facts.Delivery.pairs) ∧
        ((Facts.ofDeliveries ds).value = (Facts.ofDeliveries es).value ↔
          ∀ p, p ∈ ds.flatMap Facts.Delivery.pairs ↔ p ∈ es.flatMap Facts.Delivery.pairs)) ∧
    (∀ s t : Target, compare s t = ((compare s.site? t.site?).then <| (compare s.offset t.offset).then <|
      (compare s.state t.state).then <| (compare s.size? t.size?).then (compare s.owner? t.owner?))) ∧
    (∀ a b : Word, compare (Offset.known a) (.known b) = compare a b ∧ compare (Offset.known a) .unknown = .lt) ∧
    (∀ s t : Target, compare t s = (compare s t).swap) ∧
    (∀ s t u : Target, compare s t = .lt → compare t u = .lt → compare s u = .lt) ∧
    (∀ s t : Target, compare s t = .eq ↔ s.site? = t.site? ∧ s.offset = t.offset ∧ s.state = t.state ∧
      s.size? = t.size? ∧ s.owner? = t.owner?) ∧
    ∀ s t : Target, compare s t = .eq ↔ s = t := by
  refine ⟨?_, ?_, fun s t => rfl, fun a b => ⟨Offset.compare_known a b, Offset.compare_known_unknown a⟩,
    fun s t => Std.OrientedCmp.eq_swap, fun s t u => Std.TransCmp.lt_trans, Target.compare_eq_iff_parts,
    fun s t => Std.compare_eq_iff_eq⟩
  · intro α β _ _ _ _ _ _ pairs pairs'
    have hpairs := Multimap.reflects_insertAll pairs
    exact ⟨hpairs.canonical, hpairs.eq_iff (Multimap.reflects_insertAll pairs')⟩
  · intro ds es
    rw [Facts.value_ofDeliveries, Facts.value_ofDeliveries]
    have hds := Multimap.reflects_insertAll (ds.flatMap Facts.Delivery.pairs)
    exact ⟨hds.canonical, hds.eq_iff (Multimap.reflects_insertAll (es.flatMap Facts.Delivery.pairs))⟩

end PointerQuery
