import Slung.Lib.Join
import Slung.Lib.Machine
import Slung.Memory.Lww

/-!
# Slung.Memory.Merge — merging stores (`memory/lww.zig`)

`merge` puts the entries of another store one by one, in the order in which its hash map is iterated.  As maps,
stores are joins of the entries that reached them, so replicas that got the same entries are equal
(`LwwRegistry.merge_convergent`).
-/

namespace Slung

open Slung.Lib

namespace LwwRegistry

variable {hash : Bytes → ℕ}

/-- An order in which a hash map may be iterated. -/
structure Iteration (entries : FMap Bytes Entry) where
  keys : List Bytes
  nodup : keys.Nodup
  complete : ∀ key, key ∈ keys ↔ key ∈ entries

/-- Is this an order of all keys? -/
def Iteration.ofKeys (entries : FMap Bytes Entry) (keys : List Bytes) : Option (Iteration entries) :=
  if h : keys.Nodup ∧ keys.toFinset = entries.keys then
    some ⟨keys, h.1, fun key => by rw [← Finmap.mem_keys, ← h.2, List.mem_toFinset]⟩
  else none

/-- The entries, in the order of the iteration. -/
def Iteration.items {entries : FMap Bytes Entry} (it : Iteration entries) : List (Bytes × Entry) :=
  it.keys.filterMap fun key => (entries.lookup key).map (key, ·)

theorem Iteration.mem_items {entries : FMap Bytes Entry} (it : Iteration entries) (key : Bytes) (entry : Entry) :
    (key, entry) ∈ it.items ↔ entries.lookup key = some entry := by
  rw [items, List.mem_filterMap]
  constructor
  · rintro ⟨key', -, hentry⟩
    obtain ⟨entry', hlookup, heq⟩ := Option.map_eq_some_iff.mp hentry
    obtain ⟨rfl, rfl⟩ := Prod.mk.inj heq
    exact hlookup
  · intro hlookup
    refine ⟨key, (it.complete key).mpr (Finmap.mem_iff.mpr ⟨entry, hlookup⟩), ?_⟩
    rw [hlookup]
    rfl

/-- Put remote entries one by one. -/
def mergeItems (fault : Bytes → Option PutAlloc) (self : LwwRegistry hash) :
    List (Bytes × Entry) → Except Err (LwwRegistry hash)
  | [] => .ok self
  | (key, remoteEntry) :: items =>
    match self.put (fault key) key remoteEntry.hlc remoteEntry.value remoteEntry.cause with
    | .error e => .error e
    | .ok (self, _) => self.mergeItems fault items

/-- Merge remote entries into this registry; `fault` is the allocation that fails at a key. -/
def merge (fault : Bytes → Option PutAlloc) (self other : LwwRegistry hash) (it : Iteration other.entries) :
    Except Err (LwwRegistry hash) :=
  self.mergeItems fault it.items

theorem mergeItems_entries {fault : Bytes → Option PutAlloc} {self merged : LwwRegistry hash}
    {items : List (Bytes × Entry)} (h : self.mergeItems fault items = .ok merged) :
    merged.entries = items.foldl (fun m e => write Entry.hlc m e.1 e.2) self.entries := by
  induction items generalizing self with
  | nil => rw [Except.ok.inj h]; rfl
  | cons item items ih =>
    obtain ⟨key, entry⟩ := item
    cases hput : self.put (fault key) key entry.hlc entry.value entry.cause with
    | error e =>
      simp only [mergeItems, hput] at h
      cases h
    | ok stored =>
      obtain ⟨store, accepted⟩ := stored
      simp only [mergeItems, hput] at h
      rw [ih h, put_write hput]
      rfl

/-- What has reached a store. -/
abbrev Holds (S : Set (Bytes × Entry)) (self : LwwRegistry hash) : Prop := IsJoin Entry.hlc S self.entries

theorem holds_contents (self : LwwRegistry hash) : Holds (contents self.entries) self :=
  isJoin_contents Entry.hlc self.entries

/-- **A merge joins the entries of the two stores.** -/
theorem Holds.merge {S T : Set (Bytes × Entry)} {fault : Bytes → Option PutAlloc}
    {self other merged : LwwRegistry hash} {it : Iteration other.entries} (h : Holds S self) (h' : Holds T other)
    (hm : self.merge fault other it = .ok merged) : Holds (S ∪ T) merged := by
  rw [Holds, mergeItems_entries hm]
  exact IsJoin.merge h h' it.mem_items

/-! ## Replicas -/

/-- Stores that exchange their entries, with the entries that have reached each of them. -/
structure Replicas (ι : Type) (hash : Bytes → ℕ) where
  stores : ι → LwwRegistry hash
  reached : ι → Set (Bytes × Entry)

inductive Exchange (ι : Type) where
  | put (i : ι) (key : Bytes) (entry : Entry) (fault : Option PutAlloc)
  /-- merge the store of `source` into that of `i`, its keys in this order -/
  | merge (i source : ι) (keys : List Bytes) (fault : Bytes → Option PutAlloc)

section

variable {ι : Type} [DecidableEq ι]

def Replicas.update (s : Replicas ι hash) (i : ι) (store : LwwRegistry hash) (entries : Set (Bytes × Entry)) :
    Replicas ι hash :=
  ⟨Function.update s.stores i store, Function.update s.reached i (s.reached i ∪ entries)⟩

variable (hash) in
def replicas : Machine (Replicas ι hash) (Exchange ι) where
  step s
    | .put i key entry fault =>
      match (s.stores i).put fault key entry.hlc entry.value entry.cause with
      | .error _ => none
      | .ok (store, _) => some (s.update i store {(key, entry)})
    | .merge i source keys fault =>
      match Iteration.ofKeys (s.stores source).entries keys with
      | none => none
      | some it =>
        match (s.stores i).merge fault (s.stores source) it with
        | .error _ => none
        | .ok merged => some (s.update i merged (s.reached source))

/-- Nothing has been exchanged yet. -/
def Replicas.start (stores : ι → LwwRegistry hash) : Replicas ι hash :=
  ⟨stores, fun i => contents (stores i).entries⟩

theorem holds_update {s : Replicas ι hash} (h : ∀ i, Holds (s.reached i) (s.stores i)) {i : ι}
    {store : LwwRegistry hash} {entries : Set (Bytes × Entry)} (hi : Holds (s.reached i ∪ entries) store) :
    ∀ j, Holds ((s.update i store entries).reached j) ((s.update i store entries).stores j) := by
  intro j
  by_cases hj : j = i
  · subst hj
    simpa [Replicas.update] using hi
  · simpa [Replicas.update, Function.update_of_ne hj] using h j

/-- An exchange adds what it brings. -/
theorem holds_step {s s' : Replicas ι hash} {l : Exchange ι} (h : ∀ i, Holds (s.reached i) (s.stores i))
    (hs : (replicas hash).step s l = some s') : ∀ i, Holds (s'.reached i) (s'.stores i) := by
  cases l with
  | put i key entry fault =>
    simp only [replicas] at hs
    cases hput : (s.stores i).put fault key entry.hlc entry.value entry.cause with
    | error e =>
      rw [hput] at hs
      cases hs
    | ok stored =>
      obtain ⟨store, accepted⟩ := stored
      rw [hput] at hs
      obtain rfl := Option.some.inj hs
      refine holds_update h ?_
      rw [Set.union_singleton, Holds, put_write hput]
      exact IsJoin.write (h i) key entry
  | merge i source keys fault =>
    simp only [replicas] at hs
    cases hkeys : Iteration.ofKeys (s.stores source).entries keys with
    | none =>
      rw [hkeys] at hs
      cases hs
    | some it =>
      cases hmerge : (s.stores i).merge fault (s.stores source) it with
      | error e =>
        simp only [hkeys, hmerge] at hs
        cases hs
      | ok merged =>
        simp only [hkeys, hmerge] at hs
        obtain rfl := Option.some.inj hs
        exact holds_update h ((h i).merge (h source) hmerge)

/-- A merge brings what has reached the source. -/
theorem reached_merge {s s' : Replicas ι hash} {i source : ι} {keys : List Bytes} {fault : Bytes → Option PutAlloc}
    (hs : (replicas hash).step s (.merge i source keys fault) = some s') :
    s'.reached = Function.update s.reached i (s.reached i ∪ s.reached source) := by
  simp only [replicas] at hs
  split at hs
  · cases hs
  · split at hs
    · cases hs
    · rw [← Option.some.inj hs]
      rfl

/-- **Every replica holds the join of what has reached it.** -/
theorem holds_reaches {start : ι → LwwRegistry hash} {s : Replicas ι hash}
    (h : (replicas hash).Reaches (fun _ _ => True) (.start start) s) : ∀ i, Holds (s.reached i) (s.stores i) :=
  h.invariant (I := fun s => ∀ i, Holds (s.reached i) (s.stores i)) (fun i => holds_contents (start i))
    fun _ _ _ hi _ hs => holds_step hi hs

end

/-- **Merging is a convergent join**, where no two different entries share a key and a timestamp: commutative,
associative, idempotent, and replicas that the same entries have reached are equal. -/
theorem merge_convergent :
    (∀ {a b ab ba : LwwRegistry hash} (ita : Iteration a.entries) (itb : Iteration b.entries) f g,
      NoTies Entry.hlc (contents a.entries ∪ contents b.entries) →
      a.merge f b itb = .ok ab → b.merge g a ita = .ok ba → ab.entries = ba.entries) ∧
    (∀ {a b c ab bc abc abc' : LwwRegistry hash} (itb : Iteration b.entries) (itc : Iteration c.entries)
      (itbc : Iteration bc.entries) f g f' g',
      NoTies Entry.hlc (contents a.entries ∪ contents b.entries ∪ contents c.entries) →
      a.merge f b itb = .ok ab → ab.merge g c itc = .ok abc →
      b.merge f' c itc = .ok bc → a.merge g' bc itbc = .ok abc' → abc.entries = abc'.entries) ∧
    (∀ {a aa : LwwRegistry hash} (ita : Iteration a.entries) f,
      a.merge f a ita = .ok aa → aa.entries = a.entries) ∧
    ∀ {ι : Type} [DecidableEq ι] (start : ι → LwwRegistry hash) (s : Replicas ι hash),
      (replicas hash).Reaches (fun _ _ => True) (.start start) s →
      ∀ i j, NoTies Entry.hlc (s.reached i) → s.reached i = s.reached j →
        (s.stores i).entries = (s.stores j).entries := by
  refine ⟨?_, ?_, ?_, ?_⟩
  · intro a b ab ba ita itb f g hties hab hba
    have ha := holds_contents a
    have hb := holds_contents b
    have hba' := hb.merge ha hba
    rw [Set.union_comm] at hba'
    exact (ha.merge hb hab).unique hba' hties
  · intro a b c ab bc abc abc' itb itc itbc f g f' g' hties hab habc hbc habc'
    have ha := holds_contents a
    have hb := holds_contents b
    have hc := holds_contents c
    have hright := ha.merge (hb.merge hc hbc) habc'
    rw [← Set.union_assoc] at hright
    exact ((ha.merge hb hab).merge hc habc).unique hright hties
  · intro a aa ita f haa
    have ha := holds_contents a
    have haa' := ha.merge ha haa
    rw [Set.union_self] at haa'
    exact haa'.unique ha (noTies_contents _ _)
  · intro ι _ start s hreaches i j hties heq
    have hi := holds_reaches hreaches i
    have hj := holds_reaches hreaches j
    rw [← heq] at hj
    exact hi.unique hj hties

/-- Two replicas that have written the same key and merged each other. -/
theorem merge_convergent_example :
    let store (wall : UInt64) : LwwRegistry fun _ => 0 := init.add [107] ⟨⟨wall, 0, 1⟩, .bool true, ⟨0, 0, []⟩⟩
    ∃ s, (replicas fun _ => 0).Reaches (fun _ _ => True) (.start fun i => store (if i then 6 else 5)) s ∧
      (s.stores false).entries = (s.stores true).entries := by
  intro store
  let start : Replicas Bool fun _ => 0 := .start fun i => store (if i then 6 else 5)
  let exchanges : List (Exchange Bool) :=
    [.merge false true [[107]] fun _ => none, .merge true false [[107]] fun _ => none]
  have hrun : (exchanges.foldlM (replicas fun _ => 0).step start).isSome := by
    decide +kernel
  obtain ⟨s, hs⟩ := Option.isSome_iff_exists.mp hrun
  have hreached : s.reached false = start.reached false ∪ start.reached true ∧
      s.reached true = start.reached true ∪ (start.reached false ∪ start.reached true) := by
    simp only [exchanges, List.foldlM_cons, List.foldlM_nil] at hs
    obtain ⟨s₁, hfirst, hs⟩ := Option.bind_eq_some_iff.mp hs
    obtain ⟨s₂, hsecond, hs⟩ := Option.bind_eq_some_iff.mp hs
    obtain rfl := Option.some.inj hs
    rw [reached_merge hsecond, reached_merge hfirst]
    simp
  have hties : NoTies Entry.hlc (s.reached false) := by
    have hwritten : ∀ i, ∀ e ∈ start.reached i,
        e.2 = ⟨⟨if i then 6 else 5, 0, 1⟩, .bool true, ⟨0, 0, []⟩⟩ := by
      rintro i ⟨key, entry⟩ hmem
      have hlookup : (store (if i then 6 else 5)).entries.lookup key = some entry := hmem
      rw [show (store (if i then 6 else 5)).entries = Finmap.insert [107] _ ∅ from rfl,
        FMap.lookup_insert_eq, Finmap.lookup_empty] at hlookup
      by_cases hkey : key = [107]
      · rw [if_pos hkey] at hlookup
        exact (Option.some.inj hlookup).symm
      · rw [if_neg hkey] at hlookup
        cases hlookup
    intro key entry entry' hmem hmem' heq
    rw [hreached.1] at hmem hmem'
    rcases hmem with hmem | hmem <;> rcases hmem' with hmem' | hmem' <;>
      · have hentry : entry = _ := hwritten _ _ hmem
        have hentry' : entry' = _ := hwritten _ _ hmem'
        subst hentry hentry'
        first | rfl | simp at heq
  have hreaches : (replicas fun _ => 0).Reaches (fun _ _ => True) start s :=
    Machine.reaches_of_foldlM (fun _ _ _ => trivial) hs
  refine ⟨s, hreaches, merge_convergent.2.2.2 _ s hreaches false true hties ?_⟩
  rw [hreached.1, hreached.2, Set.union_comm (start.reached true), Set.union_assoc, Set.union_self]

end LwwRegistry

end Slung
