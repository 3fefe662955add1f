import Slung.Memory.SkipListRow

/-!
# Slung.Memory.SkipListMap — the skip list is an ordered map (`memory/skiplist.zig`)

The nodes of the row hold the bindings of a map, and each call does to them what a plain map does, whatever is drawn
for the levels and whatever fails to be allocated.  So any sequence of calls gives the results of that map, and
leaves its bindings in order at the lowest level (`ordered_map`).
-/

namespace Slung

open Slung.Lib SkipList

namespace SkipList

inductive Call (K V : Type) where
  /-- `zeros` is what is drawn for the level. -/
  | insert (key : K) (val : V) (zeros : ℕ) (alloc : Alloc)
  | delete (key : K)
  | search (key : K)
  | length

/-- What a caller gets, with what it reads in a node that is returned. -/
inductive Result (K V : Type) where
  | inserted (res : Except Err (K × V))
  | deleted (found : Bool)
  | found (entry : Option (K × V))
  | length (n : ℕ)

def Alloc.fails : Alloc → Bool
  | .grants _ => false
  | .createFails => true
  | .forwardFails => true

end SkipList

namespace SkipListImpl

variable {K V : Type} {maxLevel : ℕ}

def read (self : SkipListImpl K V maxLevel) (r : Ref) : Except Trap (K × V) :=
  (fun node => (node.key, node.value)) <$> self.node r

theorem read_eq {self : SkipListImpl K V maxLevel} {r : Ref} {e : K × V} (h : self.entry r = some e) :
    self.read r = .ok e := by
  obtain ⟨n, -, hn, hkey, hval⟩ := node_of_entry h
  unfold read
  rw [hn]
  exact congrArg _ (Prod.ext hkey hval)

/-! ## Levels -/

/-- Along the links of a level. -/
def refsFrom (self : SkipListImpl K V maxLevel) (level : ℕ) : ℕ → Option Ref → Except Trap (List Ref)
  | 0, _ => .error .stuck
  | _ + 1, none => .ok []
  | fuel + 1, some r => do
    let next ← self.getForward (some r) level
    let refs ← self.refsFrom level fuel next
    .ok (r :: refs)

def refsAt (self : SkipListImpl K V maxLevel) (level : ℕ) : Except Trap (List Ref) := do
  let first ← self.getForward none level
  self.refsFrom level self.fuel first

def entries (self : SkipListImpl K V maxLevel) : Except Trap (List (K × V)) := do
  let refs ← self.refsAt 0
  refs.mapM self.read

theorem lengthFrom_eq (self : SkipListImpl K V maxLevel) (fuel : ℕ) (p : Option Ref) :
    self.lengthFrom fuel p = List.length <$> self.refsFrom 0 fuel p := by
  induction fuel generalizing p with
  | zero => rfl
  | succ fuel ih =>
    cases p with
    | none => rfl
    | some r =>
      rw [lengthFrom, refsFrom]
      cases self.getForward (some r) 0 with
      | error e => rfl
      | ok next =>
        show (self.lengthFrom fuel next >>= _) = List.length <$> (self.refsFrom 0 fuel next >>= _)
        rw [ih]
        cases self.refsFrom 0 fuel next <;> rfl

theorem length_eq (self : SkipListImpl K V maxLevel) : self.length = List.length <$> self.refsAt 0 := by
  unfold length refsAt
  cases self.getForward none 0 with
  | error e => rfl
  | ok first => exact self.lengthFrom_eq self.fuel first

/-! ## Calls -/

variable [LinearOrder K]

def call (self : SkipListImpl K V maxLevel) : Call K V → Except Trap (SkipListImpl K V maxLevel × Result K V)
  | .insert key val zeros alloc => do
    let (self, res) ← self.insert key val zeros alloc
    match res with
    | .error e => .ok (self, .inserted (.error e))
    | .ok r => do
      let entry ← self.read r
      .ok (self, .inserted (.ok entry))
  | .delete key => do
    let (self, found) ← self.delete key
    .ok (self, .deleted found)
  | .search key => do
    match ← self.search key with
    | none => .ok (self, .found none)
    | some r => do
      let entry ← self.read r
      .ok (self, .found (some entry))
  | .length => do
    let n ← self.length
    .ok (self, .length n)

def run (self : SkipListImpl K V maxLevel) :
    List (Call K V) → Except Trap (SkipListImpl K V maxLevel × List (Result K V))
  | [] => .ok (self, [])
  | c :: calls => do
    let (self, res) ← self.call c
    let (self, results) ← self.run calls
    .ok (self, res :: results)

/-! ## The map that it is compared with -/

namespace Reference

def call (m : FMap K V) : Call K V → FMap K V × Result K V
  | .insert key val _ alloc =>
    if alloc.fails ∧ (m.lookup key).isNone then (m, .inserted (.error .outOfMemory))
    else (m.insert key val, .inserted (.ok (key, val)))
  | .delete key => (m.erase key, .deleted (m.lookup key).isSome)
  | .search key => (m, .found ((m.lookup key).map (key, ·)))
  | .length => (m, .length m.keys.card)

def run (m : FMap K V) : List (Call K V) → FMap K V × List (Result K V)
  | [] => (m, [])
  | c :: calls =>
    let (m, res) := call m c
    let (m, results) := run m calls
    (m, res :: results)

end Reference

/-- The lowest level has the bindings of the map in order, and each other level is a part of the one below. -/
structure IsMap (s : SkipListImpl K V maxLevel) (m : FMap K V) : Prop where
  bindings : ∃ l, s.entries = .ok l ∧ (l.Pairwise fun e e' => e.1 < e'.1) ∧
    ∀ key val, (key, val) ∈ l ↔ m.lookup key = some val
  sublists : ∀ i, i + 1 < maxLevel → ∃ l l', s.refsAt i = .ok l ∧ s.refsAt (i + 1) = .ok l' ∧ l'.Sublist l

section Levels

variable {self : SkipListImpl K V maxLevel} {row : List Ref}

namespace Rep

theorem refsFrom_eq (h : Rep self row) {i : ℕ} (hi : i < maxLevel) (before after : List Ref)
    (hrow : row = before ++ after) {fuel : ℕ} (hfuel : after.length < fuel) :
    self.refsFrom i fuel (next? self.height i after) = .ok (chain self.height i after) := by
  induction after generalizing before fuel with
  | nil =>
    obtain ⟨fuel, rfl⟩ := Nat.exists_eq_succ_of_ne_zero (Nat.ne_of_gt hfuel)
    rfl
  | cons r after ih =>
    have hrow' : row = (before ++ [r]) ++ after := by rw [hrow, List.append_assoc, List.singleton_append]
    rw [List.length_cons] at hfuel
    by_cases hheight : i < self.height r
    · obtain ⟨fuel, rfl⟩ := Nat.exists_eq_succ_of_ne_zero (Nat.ne_of_gt ((Nat.zero_le _).trans_lt hfuel))
      have hnext := h.getForward_last hi hrow'
      rw [last?_concat_of_lt hheight] at hnext
      rw [next?_cons_of_lt hheight, chain_cons_of_lt hheight, refsFrom, hnext]
      show (self.refsFrom i fuel (next? self.height i after) >>= _) = _
      rw [ih _ hrow' (by omega)]
      rfl
    · -- the level passes over this node
      rw [next?_cons_of_le (Nat.not_lt.mp hheight), chain_cons_of_le (Nat.not_lt.mp hheight)]
      exact ih _ hrow' (by omega)

theorem refsAt_eq (h : Rep self row) {i : ℕ} (hi : i < maxLevel) :
    self.refsAt i = .ok (chain self.height i row) := by
  have hfirst : self.getForward none i = .ok (next? self.height i row) :=
    h.getForward_last hi (List.nil_append row).symm
  unfold refsAt
  rw [hfirst]
  exact h.refsFrom_eq hi [] row rfl h.length_lt_fuel

theorem refsAt_zero (h : Rep self row) : self.refsAt 0 = .ok row := by
  rw [h.refsAt_eq (h.level.1.trans_le h.level.2), chain_eq_self fun r hr => (h.heights r hr).1]

theorem mapM_read {refs : List Ref} (h : Rep self row) (hrefs : ∀ r ∈ refs, r ∈ row) :
    ∃ l, refs.mapM self.read = .ok l ∧ l.map some = refs.map self.entry := by
  induction refs with
  | nil => exact ⟨[], rfl, rfl⟩
  | cons r refs ih =>
    obtain ⟨hr, hrest⟩ := List.forall_mem_cons.mp hrefs
    obtain ⟨l, hl, hmap⟩ := ih hrest
    obtain ⟨key, val, hentry⟩ := h.entry hr
    refine ⟨(key, val) :: l, ?_, ?_⟩
    · rw [List.mapM_cons, read_eq hentry, hl]
      rfl
    · rw [List.map_cons, List.map_cons, hentry, hmap]

end Rep

end Levels

/-! ## The nodes hold the bindings of a map -/

def Holds (self : SkipListImpl K V maxLevel) (m : FMap K V) : Prop :=
  ∀ key val, m.lookup key = some val ↔ ∃ r, self.entry r = some (key, val)

section Holds

variable {self s : SkipListImpl K V maxLevel} {m : FMap K V} {row lo hi after : List Ref} {key : K} {val : V} {r : Ref}

theorem Rep.mem_row (h : Rep self row) {e : K × V} (he : self.entry r = some e) : r ∈ row := by
  obtain ⟨n, hn, -⟩ := node_of_entry he
  exact (h.keys r).mp (Finmap.mem_keys.mpr (Finmap.mem_iff.mpr ⟨n, hn⟩))

/-- No two nodes have one key. -/
theorem Rep.key_ne (h : Rep self (lo ++ r :: after)) (hr : self.entry r = some (key, val)) :
    ∀ r' ≠ r, ∀ e ∈ self.entry r', e.1 ≠ key := by
  intro r' hne e he
  obtain ⟨-, hafter, hcross⟩ := List.pairwise_append.mp h.ascending
  have hmem := h.mem_row he
  rcases List.mem_append.mp hmem with hlo | hrest
  · exact (hcross r' hlo r List.mem_cons_self e he _ hr).ne
  · rcases List.mem_cons.mp hrest with heq | hrest
    · exact absurd heq hne
    · exact ((List.pairwise_cons.mp hafter).1 r' hrest _ hr e he).ne'

/-- The node of a key is written, or it goes, as the binding of the key is. -/
theorem Holds.update {m' : FMap K V} {o : Option V} (hm : Holds self m)
    (hm' : ∀ key', m'.lookup key' = if key' = key then o else m.lookup key')
    (hs : ∀ r', s.entry r' = if r' = r then o.map (key, ·) else self.entry r')
    (hother : ∀ r' ≠ r, ∀ e ∈ self.entry r', e.1 ≠ key) (hself : ∀ e ∈ self.entry r, e.1 = key) : Holds s m' := by
  intro key' val'
  rw [hm']
  by_cases hkey : key' = key
  · rw [if_pos hkey, hkey]
    constructor
    · intro ho
      exact ⟨r, by rw [hs, if_pos rfl, ho]; rfl⟩
    · rintro ⟨r', hr'⟩
      rw [hs] at hr'
      by_cases heq : r' = r
      · rw [if_pos heq] at hr'
        obtain ⟨v, hv, hpair⟩ := Option.map_eq_some_iff.mp hr'
        rw [hv]
        exact congrArg some (congrArg Prod.snd hpair)
      · rw [if_neg heq] at hr'
        exact absurd rfl (hother r' heq _ hr')
  · rw [if_neg hkey, hm]
    refine exists_congr fun r' => ?_
    rw [hs]
    by_cases heq : r' = r
    · rw [if_pos heq, heq]
      refine iff_of_false (fun hr' => hkey (hself _ hr')) fun hr' => hkey ?_
      obtain ⟨v, -, hpair⟩ := Option.map_eq_some_iff.mp hr'
      exact (congrArg Prod.fst hpair).symm
    · rw [if_neg heq]

theorem Holds.insert (hm : Holds self m) (hput : Puts self s r key val)
    (hother : ∀ r' ≠ r, ∀ e ∈ self.entry r', e.1 ≠ key) (hself : ∀ e ∈ self.entry r, e.1 = key) :
    Holds s (m.insert key val) :=
  hm.update (fun key' => FMap.lookup_insert_eq m key key' val) hput hother hself

theorem Holds.erase (hm : Holds self m) (hdrop : ∀ r', s.entry r' = if r' = r then none else self.entry r')
    (hother : ∀ r' ≠ r, ∀ e ∈ self.entry r', e.1 ≠ key) (hself : ∀ e ∈ self.entry r, e.1 = key) :
    Holds s (m.erase key) :=
  hm.update (FMap.lookup_erase_eq m key) hdrop hother hself

/-- The place of a key is in front of its node, if it has one. -/
theorem Holds.place (hm : Holds self m) (h : Rep self (lo ++ hi)) (hcut : Cut self key lo hi) :
    (∃ r after n, hi = r :: after ∧ self.nodes.lookup r = some n ∧ n.key = key ∧ m.lookup key = some n.value) ∨
      m.lookup key = none ∧ (∀ r ∈ hi, ∀ e ∈ self.entry r, key < e.1) ∧
        ∀ r ∈ hi.head?, ∃ n, self.node r = .ok n ∧ n.key ≠ key := by
  have habsent (hhi : ∀ r ∈ hi, ∀ e ∈ self.entry r, key < e.1) : m.lookup key = none := by
    rw [Option.eq_none_iff_forall_ne_some]
    intro val hlookup
    obtain ⟨r, hr⟩ := (hm key val).mp hlookup
    rcases List.mem_append.mp (h.mem_row hr) with hlo | hhi'
    · exact lt_irrefl _ (hcut.lo r hlo _ hr)
    · exact lt_irrefl _ (hhi r hhi' _ hr)
  cases hi with
  | nil =>
    exact Or.inr ⟨habsent (List.forall_mem_nil _), List.forall_mem_nil _,
      fun r hr => absurd hr (Option.not_mem_none r)⟩
  | cons r after =>
    obtain ⟨k, v, hentry⟩ := h.entry (r := r) (by simp)
    obtain ⟨n, hlookup, hn, rfl, rfl⟩ := node_of_entry hentry
    by_cases hkey : n.key = key
    · exact Or.inl ⟨r, after, n, rfl, hlookup, hkey, (hm key n.value).mpr ⟨r, hkey ▸ hentry⟩⟩
    · have hlt : key < n.key := lt_of_le_of_ne (hcut.hi r List.mem_cons_self _ hentry) (Ne.symm hkey)
      have hhi : ∀ r' ∈ r :: after, ∀ e ∈ self.entry r', key < e.1 := by
        intro r' hr' e he
        rcases List.mem_cons.mp hr' with rfl | hr'
        · rw [hentry] at he
          obtain rfl := Option.some.inj he
          exact hlt
        · obtain ⟨-, hafter, -⟩ := List.pairwise_append.mp h.ascending
          exact hlt.trans ((List.pairwise_cons.mp hafter).1 r' hr' _ hentry e he)
      refine Or.inr ⟨habsent hhi, hhi, fun r' hr' => ⟨n, ?_, hkey⟩⟩
      obtain rfl := Option.some.inj hr'
      exact hn

end Holds

/-! ## What the operations do to the map -/

section Operations

variable {self : SkipListImpl K V maxLevel} {key : K} {val : V} {r : Ref} {n : Node K V} {first : Option Ref}
  {update : List (Option Ref)} {zeros : ℕ} {alloc : Alloc}

theorem insert_of_found (hfind : self.find key = .ok (some r, update)) (hlookup : self.nodes.lookup r = some n)
    (hkey : n.key = key) :
    self.insert key val zeros alloc = .ok (self.putNode r { n with value := val }, .ok r) := by
  unfold insert
  rw [hfind]
  show (self.node r >>= _) = _
  rw [node_eq hlookup]
  exact if_pos (compare_eq_iff_eq.mpr hkey)

theorem insert_of_absent (hfind : self.find key = .ok (first, update))
    (hne : ∀ r ∈ first, ∃ n, self.node r = .ok n ∧ n.key ≠ key) :
    self.insert key val zeros alloc = self.insertNew key val zeros alloc update := by
  unfold insert
  rw [hfind]
  cases first with
  | none => rfl
  | some r =>
    obtain ⟨n, hn, hkey⟩ := hne r rfl
    show (self.node r >>= _) = _
    rw [hn]
    exact if_neg fun heq => hkey (compare_eq_iff_eq.mp heq)

theorem delete_of_found (hfind : self.find key = .ok (some r, update)) (hlookup : self.nodes.lookup r = some n)
    (hkey : n.key = key) {s : SkipListImpl K V maxLevel} (hdelete : self.deleteNode r update = .ok s) :
    self.delete key = .ok (s, true) := by
  unfold delete
  rw [hfind]
  show (self.node r >>= _) = _
  rw [node_eq hlookup]
  show (if compare n.key key = .eq then self.deleteNode r update >>= _ else _) = _
  rw [if_pos (compare_eq_iff_eq.mpr hkey), hdelete]
  rfl

theorem delete_of_absent (hfind : self.find key = .ok (first, update))
    (hne : ∀ r ∈ first, ∃ n, self.node r = .ok n ∧ n.key ≠ key) : self.delete key = .ok (self, false) := by
  unfold delete
  rw [hfind]
  cases first with
  | none => rfl
  | some r =>
    obtain ⟨n, hn, hkey⟩ := hne r rfl
    show (self.node r >>= _) = _
    rw [hn]
    exact if_neg fun heq => hkey (compare_eq_iff_eq.mp heq)

theorem search_of_found (hfind : self.find key = .ok (some r, update)) (hlookup : self.nodes.lookup r = some n)
    (hkey : n.key = key) : self.search key = .ok (some r) := by
  unfold search
  rw [hfind]
  show (self.node r >>= _) = _
  rw [node_eq hlookup]
  exact congrArg _ (if_pos (compare_eq_iff_eq.mpr hkey))

theorem search_of_absent (hfind : self.find key = .ok (first, update))
    (hne : ∀ r ∈ first, ∃ n, self.node r = .ok n ∧ n.key ≠ key) : self.search key = .ok none := by
  unfold search
  rw [hfind]
  cases first with
  | none => rfl
  | some r =>
    obtain ⟨n, hn, hkey⟩ := hne r rfl
    show (self.node r >>= _) = _
    rw [hn]
    exact congrArg _ (if_neg fun heq => hkey (compare_eq_iff_eq.mp heq))

end Operations

/-- The list has a row, whose nodes hold the bindings of the map. -/
structure Represents (s : SkipListImpl K V maxLevel) (m : FMap K V) : Prop where
  row : ∃ row, Rep s row
  holds : Holds s m

namespace Represents

variable {self : SkipListImpl K V maxLevel} {m : FMap K V} {key : K} {val : V}

/-- A failed allocation leaves the map as it is, and one that is granted binds the key. -/
theorem insertNew_eq {lo hi : List Ref} (h : Rep self (lo ++ hi)) (hm : Holds self m) (hcut : Cut self key lo hi)
    (habsent : m.lookup key = none) (hhi : ∀ r ∈ hi, ∀ e ∈ self.entry r, key < e.1) (val : V) (zeros : ℕ)
    (alloc : Alloc) :
    (alloc.fails = true ∧ ∃ s, self.insertNew key val zeros alloc (self.preds lo) = .ok (s, .error .outOfMemory) ∧
        Represents s m) ∨
      alloc.fails = false ∧ ∃ s r, self.insertNew key val zeros alloc (self.preds lo) = .ok (s, .ok r) ∧
        Represents s (m.insert key val) ∧ s.entry r = some (key, val) := by
  obtain ⟨lvl, level, hdraw, hpos, hle, hrep⟩ := h.drawLevel_eq rfl zeros
  have hholds : Holds (self.withLevel level) m := hm
  unfold insertNew
  rw [hdraw]
  cases alloc with
  | createFails => exact Or.inl ⟨rfl, _, rfl, ⟨_, hrep⟩, hholds⟩
  | forwardFails => exact Or.inl ⟨rfl, _, rfl, ⟨_, hrep⟩, hholds⟩
  | grants fresh =>
    have hr : fresh.pick (self.withLevel level).nodes.keys ∉ (self.withLevel level).nodes.keys := fresh.notMem _
    obtain ⟨s, hlink, hrep', hput⟩ := hrep.linkNode_eq hcut.lo hhi hr hpos hle val
    refine Or.inr ⟨rfl, s, _, ?_, ⟨⟨_, hrep'⟩, ?_⟩, (hput _).trans (if_pos rfl)⟩
    · show ((self.withLevel level).linkNode _ key val lvl ((self.withLevel level).preds lo) >>= _) = _
      rw [hlink]
      rfl
    · refine hholds.insert hput (fun r' _ e he heq => ?_) fun e he => absurd (hrep.mem_row he) fun hmem => ?_
      · have hsome : m.lookup key = some e.2 := (hm key e.2).mpr ⟨r', by rw [← heq]; exact he⟩
        rw [habsent] at hsome
        cases hsome
      · exact hr ((hrep.keys _).mpr hmem)

/-- **The entries in order.** -/
theorem entries_eq (h : Represents self m) : ∃ l, self.entries = .ok l ∧ (l.Pairwise fun e e' => e.1 < e'.1) ∧
    (∀ key val, (key, val) ∈ l ↔ m.lookup key = some val) ∧ self.length = .ok l.length := by
  obtain ⟨row, hrow⟩ := h.row
  obtain ⟨l, hl, hmap⟩ := hrow.mapM_read fun r hr => hr
  have hlength : row.length = l.length := by
    have heq := congrArg List.length hmap
    rw [List.length_map, List.length_map] at heq
    exact heq.symm
  refine ⟨l, ?_, ?_, fun key val => ?_, ?_⟩
  · unfold entries
    rw [hrow.refsAt_zero]
    exact hl
  · have hasc : (row.map self.entry).Pairwise fun o o' => ∀ e ∈ o, ∀ e' ∈ o', e.1 < e'.1 :=
      List.pairwise_map.mpr hrow.ascending
    rw [← hmap, List.pairwise_map] at hasc
    exact hasc.imp fun hab => hab _ rfl _ rfl
  · have hmem : (key, val) ∈ l ↔ some (key, val) ∈ row.map self.entry := by
      rw [← hmap, List.mem_map_of_injective (Option.some_injective _)]
    rw [hmem, h.holds, List.mem_map]
    exact ⟨fun ⟨r, _, hr⟩ => ⟨r, hr⟩, fun ⟨r, hr⟩ => ⟨r, hrow.mem_row hr, hr⟩⟩
  · rw [length_eq, hrow.refsAt_zero, ← hlength]
    rfl

theorem length_eq_card (h : Represents self m) : self.length = .ok m.keys.card := by
  obtain ⟨l, -, hasc, hmem, hlength⟩ := h.entries_eq
  have hnodup : (l.map Prod.fst).Nodup := List.pairwise_map.mpr (hasc.imp ne_of_lt)
  have hkeys : (l.map Prod.fst).toFinset = m.keys := by
    ext key
    rw [List.mem_toFinset, List.mem_map, Finmap.mem_keys, Finmap.mem_iff]
    constructor
    · rintro ⟨⟨key, val⟩, he, rfl⟩
      exact ⟨val, (hmem key val).mp he⟩
    · rintro ⟨val, hval⟩
      exact ⟨(key, val), (hmem key val).mpr hval, rfl⟩
  rw [hlength, ← hkeys, List.toFinset_card_of_nodup hnodup, List.length_map]

theorem isMap (h : Represents self m) : IsMap self m := by
  obtain ⟨row, hrow⟩ := h.row
  obtain ⟨l, hl, hasc, hmem, -⟩ := h.entries_eq
  refine ⟨⟨l, hl, hasc, hmem⟩, fun i hi => ?_⟩
  exact ⟨_, _, hrow.refsAt_eq (Nat.lt_of_succ_lt hi), hrow.refsAt_eq hi, chain_sublist (Nat.le_succ i) row⟩

/-- `insert` binds the key, unless the key is absent and an allocation fails. -/
theorem insert_eq (h : Represents self m) (key : K) (val : V) (zeros : ℕ) (alloc : Alloc) :
    ((alloc.fails ∧ (m.lookup key).isNone) ∧
        ∃ s, self.insert key val zeros alloc = .ok (s, .error .outOfMemory) ∧ Represents s m) ∨
      ¬ (alloc.fails ∧ (m.lookup key).isNone) ∧ ∃ s r, self.insert key val zeros alloc = .ok (s, .ok r) ∧
        Represents s (m.insert key val) ∧ s.entry r = some (key, val) := by
  obtain ⟨row, hrow⟩ := h.row
  obtain ⟨lo, hi, rfl, hcut⟩ := hrow.exists_cut key
  have hfind := hrow.find_eq hcut rfl
  rcases h.holds.place hrow hcut with ⟨r, after, n, rfl, hlookup, rfl, hval⟩ | ⟨habsent, hhi, hfirst⟩
  · have hentry : self.entry r = some (n.key, n.value) := congrArg (Option.map _) hlookup
    have hput : Puts self (self.putNode r { n with value := val }) r n.key val := entry_putNode _
    refine Or.inr ⟨by simp [hval], _, r, insert_of_found hfind hlookup rfl, ⟨⟨_, hrow.overwrite hlookup val⟩, ?_⟩,
      (hput r).trans (if_pos rfl)⟩
    exact h.holds.insert hput (hrow.key_ne hentry) (key_of_entry hentry)
  · have hinsert : self.insert key val zeros alloc = self.insertNew key val zeros alloc (self.preds lo) :=
      insert_of_absent hfind hfirst
    rcases insertNew_eq hrow h.holds hcut habsent hhi val zeros alloc with
      ⟨hfails, s, hnew, hs⟩ | ⟨hgranted, s, r, hnew, hs, hentry⟩
    · exact Or.inl ⟨⟨hfails, by rw [habsent]; rfl⟩, s, hinsert.trans hnew, hs⟩
    · have hno : ¬ (alloc.fails ∧ (m.lookup key).isNone) := fun hand => by
        rw [hgranted] at hand
        exact Bool.false_ne_true hand.1
      exact Or.inr ⟨hno, s, r, hinsert.trans hnew, hs, hentry⟩

theorem delete_eq (h : Represents self m) (key : K) :
    ∃ s, self.delete key = .ok (s, (m.lookup key).isSome) ∧ Represents s (m.erase key) := by
  obtain ⟨row, hrow⟩ := h.row
  obtain ⟨lo, hi, rfl, hcut⟩ := hrow.exists_cut key
  have hfind := hrow.find_eq hcut rfl
  rcases h.holds.place hrow hcut with ⟨r, after, n, rfl, hlookup, rfl, hval⟩ | ⟨habsent, -, hfirst⟩
  · have hentry : self.entry r = some (n.key, n.value) := congrArg (Option.map _) hlookup
    obtain ⟨s, hdelete, hrep, hdrop⟩ := hrow.deleteNode_eq
    rw [delete_of_found hfind hlookup rfl hdelete, hval]
    exact ⟨s, rfl, ⟨_, hrep⟩, h.holds.erase hdrop (hrow.key_ne hentry) (key_of_entry hentry)⟩
  · rw [delete_of_absent hfind hfirst, habsent]
    have herase : m.erase key = m := Finmap.ext_lookup fun key' => by
      rw [FMap.lookup_erase_eq]
      by_cases hkey : key' = key
      · rw [if_pos hkey, hkey, habsent]
      · rw [if_neg hkey]
    refine ⟨self, rfl, ?_⟩
    rw [herase]
    exact h

theorem search_eq (h : Represents self m) (key : K) :
    (m.lookup key = none ∧ self.search key = .ok none) ∨
      ∃ r val, m.lookup key = some val ∧ self.search key = .ok (some r) ∧ self.entry r = some (key, val) := by
  obtain ⟨row, hrow⟩ := h.row
  obtain ⟨lo, hi, rfl, hcut⟩ := hrow.exists_cut key
  have hfind := hrow.find_eq hcut rfl
  rcases h.holds.place hrow hcut with ⟨r, after, n, rfl, hlookup, rfl, hval⟩ | ⟨habsent, -, hfirst⟩
  · have hentry : self.entry r = some (n.key, n.value) := congrArg (Option.map _) hlookup
    exact Or.inr ⟨r, n.value, hval, search_of_found hfind hlookup rfl, hentry⟩
  · exact Or.inl ⟨habsent, search_of_absent hfind hfirst⟩

/-- **One call does what the map does**, and accesses nothing that is not there. -/
theorem call_eq (h : Represents self m) (c : Call K V) :
    ∃ s, self.call c = .ok (s, (Reference.call m c).2) ∧ Represents s (Reference.call m c).1 := by
  cases c with
  | insert key val zeros alloc =>
    rcases h.insert_eq key val zeros alloc with ⟨hfails, s, hinsert, hs⟩ | ⟨hbinds, s, r, hinsert, hs, hentry⟩
    · have href : Reference.call m (.insert key val zeros alloc) = (m, .inserted (.error .outOfMemory)) :=
        if_pos hfails
      rw [href]
      refine ⟨s, ?_, hs⟩
      show (self.insert key val zeros alloc >>= _) = _
      rw [hinsert]
      rfl
    · have href : Reference.call m (.insert key val zeros alloc) =
          (m.insert key val, .inserted (.ok (key, val))) := if_neg hbinds
      rw [href]
      refine ⟨s, ?_, hs⟩
      show (self.insert key val zeros alloc >>= _) = _
      rw [hinsert]
      show (s.read r >>= _) = _
      rw [read_eq hentry]
      rfl
  | delete key =>
    obtain ⟨s, hdelete, hs⟩ := h.delete_eq key
    refine ⟨s, ?_, hs⟩
    show (self.delete key >>= _) = _
    rw [hdelete]
    rfl
  | search key =>
    refine ⟨self, ?_, h⟩
    show (self.search key >>= _) = .ok (self, Result.found ((m.lookup key).map (key, ·)))
    rcases h.search_eq key with ⟨habsent, hsearch⟩ | ⟨r, val, hval, hsearch, hentry⟩
    · rw [hsearch, habsent]
      rfl
    · rw [hsearch, hval]
      show (self.read r >>= _) = _
      rw [read_eq hentry]
      rfl
  | length =>
    refine ⟨self, ?_, h⟩
    show (self.length >>= _) = _
    rw [h.length_eq_card]
    rfl

/-- So does a sequence of calls. -/
theorem run_eq (h : Represents self m) (calls : List (Call K V)) :
    ∃ s, self.run calls = .ok (s, (Reference.run m calls).2) ∧ Represents s (Reference.run m calls).1 := by
  induction calls generalizing self m with
  | nil => exact ⟨self, rfl, h⟩
  | cons c calls ih =>
    obtain ⟨s, hcall, hs⟩ := h.call_eq c
    obtain ⟨s', hrun, hs'⟩ := ih hs
    refine ⟨s', ?_, hs'⟩
    rw [run, hcall]
    show (s.run calls >>= _) = _
    rw [hrun]
    rfl

end Represents

/-- Nothing is in a new list. -/
theorem represents_init : Represents (init : SkipListImpl K V (maxLevel + 1)) ∅ := by
  refine ⟨⟨[], fun i hi before after hrow => ?_, List.nodup_nil, fun r => ?_, List.forall_mem_nil _,
    ⟨Nat.one_pos, Nat.succ_pos maxLevel⟩, List.length_replicate, List.Pairwise.nil, fun r hr => ?_⟩, fun key val => ?_⟩
  · obtain ⟨rfl, rfl⟩ := List.append_eq_nil_iff.mp hrow.symm
    show ((List.replicate (maxLevel + 1) none)[i]?.join : Option Ref) = none
    rw [List.getElem?_replicate]
    split <;> rfl
  · exact iff_of_false (by simp [init]) (List.not_mem_nil)
  · cases hr
  · exact iff_of_false (Option.some_ne_none val).symm fun ⟨r, hr⟩ => Option.some_ne_none _ hr.symm

/-- **The skip list is an ordered map.**  For any calls on a new list, any levels that are drawn and any allocations
that fail, no access fails, the results are those of a plain map, and in the end the lowest level has the bindings of
that map in order, each other level being a part of the one below. -/
theorem ordered_map (maxLevel : ℕ) (calls : List (Call K V)) :
    ∃ s, (init : SkipListImpl K V (maxLevel + 1)).run calls = .ok (s, (Reference.run ∅ calls).2) ∧
      IsMap s (Reference.run ∅ calls).1 := by
  obtain ⟨s, hrun, hs⟩ := represents_init.run_eq calls
  exact ⟨s, hrun, hs.isMap⟩

end SkipListImpl

end Slung
