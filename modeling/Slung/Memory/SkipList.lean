import Mathlib.Order.Compare
import Slung.Lib.LwwMap
import Slung.Lib.Threads

/-!
# Slung.Memory.SkipList — the skip list on its nodes (`memory/skiplist.zig`)

Nodes lie in a heap and are linked at each level up to their height.  Every access of the source is checked here:
a pointer to a freed node, an index beyond the links of a node, a loop that does not end.  The list keeps a row of
nodes threaded through all levels (`Rep`), and `find` walks it without a fault to the place of a key (`find_eq`).
-/

namespace Slung

open Slung.Lib

namespace SkipList

/-- A pointer to a node. -/
abbrev Ref := ℕ

structure Node (K V : Type) where
  key : K
  value : V
  forward : List (Option Ref)
deriving DecidableEq, Repr

inductive Trap where
  | outOfBounds
  | dangling
  | underflow
  /-- a loop that used up its fuel -/
  | stuck
deriving DecidableEq, Repr

inductive Err where
  | outOfMemory
deriving DecidableEq, Repr

/-- A choice of pointers, none of which is in use. -/
structure Fresh where
  pick : Finset Ref → Ref
  notMem : ∀ live, pick live ∉ live

instance : Inhabited Fresh :=
  ⟨fun live => live.sup id + 1, fun _ h => Nat.not_succ_le_self _ (Finset.le_sup (f := id) h)⟩

/-- What becomes of the two allocations of `insert`. -/
inductive Alloc where
  | createFails | forwardFails | grants (fresh : Fresh)

end SkipList

open SkipList

/-- The key and the value of the head are undefined, so that it is only its links. -/
structure SkipListImpl (K V : Type) (maxLevel : ℕ) where
  head : List (Option Ref)
  nodes : FMap Ref (Node K V)
  level : ℕ
  lastInserted : Option Ref

namespace SkipListImpl

variable {K V : Type} {maxLevel : ℕ}

def init : SkipListImpl K V maxLevel := ⟨List.replicate maxLevel none, ∅, 1, none⟩

/-! ### Nodes; no pointer stands for the head -/

def node (self : SkipListImpl K V maxLevel) (r : Ref) : Except Trap (Node K V) :=
  match self.nodes.lookup r with
  | none => .error .dangling
  | some node => .ok node

/-- The memory of a node is written. -/
def putNode (self : SkipListImpl K V maxLevel) (r : Ref) (node : Node K V) : SkipListImpl K V maxLevel :=
  { self with nodes := self.nodes.insert r node }

def forwardOf (self : SkipListImpl K V maxLevel) : Option Ref → Except Trap (List (Option Ref))
  | none => .ok self.head
  | some r => Node.forward <$> self.node r

def getForward (self : SkipListImpl K V maxLevel) (p : Option Ref) (level : ℕ) : Except Trap (Option Ref) := do
  let forward ← self.forwardOf p
  match forward[level]? with
  | none => .error .outOfBounds
  | some link => .ok link

def setForward (self : SkipListImpl K V maxLevel) (p : Option Ref) (level : ℕ) (link : Option Ref) :
    Except Trap (SkipListImpl K V maxLevel) :=
  match p with
  | none =>
    if level < self.head.length then .ok { self with head := self.head.set level link } else .error .outOfBounds
  | some r => do
    let node ← self.node r
    if level < node.forward.length then
      .ok (self.putNode r { node with forward := node.forward.set level link })
    else .error .outOfBounds

/-- No loop along a level takes more steps. -/
def fuel (self : SkipListImpl K V maxLevel) : ℕ := self.nodes.keys.card + 1

/-! ### The functions of the source -/

section Source

variable [LinearOrder K]

/-- The inner loop of `find`. -/
def walk (self : SkipListImpl K V maxLevel) (key : K) (level : ℕ) : ℕ → Option Ref → Except Trap (Option Ref)
  | 0, _ => .error .stuck
  | fuel + 1, node => do
    match ← self.getForward node level with
    | none => .ok node
    | some next =>
      let n ← self.node next
      if compare n.key key ≠ .lt then .ok node else self.walk key level fuel (some next)

/-- The outer loop of `find`, with what it writes to `update`, from the lowest level up. -/
def findFrom (self : SkipListImpl K V maxLevel) (key : K) :
    ℕ → Option Ref → Except Trap (Option Ref × List (Option Ref))
  | 0, node => do
    let node ← self.walk key 0 self.fuel node
    .ok (node, [node])
  | level + 1, node => do
    let node ← self.walk key (level + 1) self.fuel node
    let (last, update) ← self.findFrom key level node
    .ok (last, update ++ [node])

def find (self : SkipListImpl K V maxLevel) (key : K) : Except Trap (Option Ref × List (Option Ref)) :=
  match self.level with
  | 0 => .error .underflow
  | level + 1 => do
    let (node, update) ← self.findFrom key level none
    let next ← self.getForward node 0
    .ok (next, update)

/-- The level of a new node, `zeros` being the zeros that were drawn; the list grows to it. -/
def drawLevel (self : SkipListImpl K V maxLevel) (update : List (Option Ref)) (zeros : ℕ) :
    Except Trap (ℕ × SkipListImpl K V maxLevel × List (Option Ref)) :=
  let lvl := zeros + 1
  if lvl > self.level then
    let lvl := if lvl > maxLevel then maxLevel else lvl
    if self.level ≤ lvl then
      .ok (lvl, { self with level := lvl }, update ++ List.replicate (lvl - self.level) none)
    else .error .underflow
  else .ok (lvl, self, update)

/-- A step of the loop that links a new node in. -/
def linkAt (r : Ref) (update : List (Option Ref)) (self : SkipListImpl K V maxLevel) (i : ℕ) :
    Except Trap (SkipListImpl K V maxLevel) :=
  match update[i]? with
  | none => .error .outOfBounds
  | some pred => do
    let link ← self.getForward pred i
    let self ← self.setForward (some r) i link
    self.setForward pred i (some r)

/-- The node of `insert` once it is allocated. -/
def linkNode (self : SkipListImpl K V maxLevel) (r : Ref) (key : K) (val : V) (lvl : ℕ)
    (update : List (Option Ref)) : Except Trap (SkipListImpl K V maxLevel) := do
  let self ← (List.range lvl).foldlM (linkAt r update) (self.putNode r ⟨key, val, List.replicate lvl none⟩)
  .ok { self with lastInserted := some r }

/-- The part of `insert` for a key that is not there. -/
def insertNew (self : SkipListImpl K V maxLevel) (key : K) (val : V) (zeros : ℕ) (alloc : Alloc)
    (update : List (Option Ref)) : Except Trap (SkipListImpl K V maxLevel × Except Err Ref) := do
  let (lvl, self, update) ← self.drawLevel update zeros
  match alloc with
  | .createFails => .ok (self, .error .outOfMemory)
  | .forwardFails => .ok (self, .error .outOfMemory)
  | .grants fresh => do
    let r := fresh.pick self.nodes.keys
    let self ← self.linkNode r key val lvl update
    .ok (self, .ok r)

def insert (self : SkipListImpl K V maxLevel) (key : K) (val : V) (zeros : ℕ) (alloc : Alloc) :
    Except Trap (SkipListImpl K V maxLevel × Except Err Ref) := do
  let (maybeNode, update) ← self.find key
  match maybeNode with
  | some r => do
    let node ← self.node r
    if compare node.key key = .eq then
      .ok (self.putNode r { node with value := val }, .ok r)
    else self.insertNew key val zeros alloc update
  | none => self.insertNew key val zeros alloc update

/-- The loop that takes a node out of its levels. -/
def unlinkFrom (r : Ref) (update : List (Option Ref)) :
    ℕ → ℕ → SkipListImpl K V maxLevel → Except Trap (SkipListImpl K V maxLevel)
  | 0, _, self => .ok self
  | count + 1, lvl, self =>
    match update[lvl]? with
    | none => .error .outOfBounds
    | some pred => do
      let link ← self.getForward pred lvl
      if link ≠ some r then .ok self
      else do
        let next ← self.getForward (some r) lvl
        let self ← self.setForward pred lvl next
        unlinkFrom r update count (lvl + 1) self

/-- The loop that lowers the level of the list. -/
def shrink (head : List (Option Ref)) : ℕ → Except Trap ℕ
  | level + 2 =>
    match head[level + 1]? with
    | none => .error .outOfBounds
    | some (some _) => .ok (level + 2)
    | some none => shrink head (level + 1)
  | level => .ok level

def deleteNode (self : SkipListImpl K V maxLevel) (r : Ref) (update : List (Option Ref)) :
    Except Trap (SkipListImpl K V maxLevel) := do
  let self ← unlinkFrom r update self.level 0 self
  let level ← shrink self.head self.level
  .ok { self with
    level := level
    lastInserted := if self.lastInserted = some r then none else self.lastInserted
    nodes := self.nodes.erase r }

def delete (self : SkipListImpl K V maxLevel) (key : K) : Except Trap (SkipListImpl K V maxLevel × Bool) := do
  let (maybeNode, update) ← self.find key
  match maybeNode with
  | some r => do
    let node ← self.node r
    if compare node.key key = .eq then
      let self ← self.deleteNode r update
      .ok (self, true)
    else .ok (self, false)
  | none => .ok (self, false)

def search (self : SkipListImpl K V maxLevel) (key : K) : Except Trap (Option Ref) := do
  let (maybeNode, _) ← self.find key
  match maybeNode with
  | some r => do
    let node ← self.node r
    .ok (if compare node.key key = .eq then some r else none)
  | none => .ok none

/-- The loop of `length`. -/
def lengthFrom (self : SkipListImpl K V maxLevel) : ℕ → Option Ref → Except Trap ℕ
  | 0, _ => .error .stuck
  | _ + 1, none => .ok 0
  | fuel + 1, some n => do
    let next ← self.getForward (some n) 0
    let lngth ← self.lengthFrom fuel next
    .ok (lngth + 1)

def length (self : SkipListImpl K V maxLevel) : Except Trap ℕ := do
  let node ← self.getForward none 0
  self.lengthFrom self.fuel node

end Source

/-! ## What is in the nodes -/

/-- The links of a node, or of the head. -/
def links (self : SkipListImpl K V maxLevel) : Option Ref → List (Option Ref)
  | none => self.head
  | some r => ((self.nodes.lookup r).map Node.forward).getD []

def height (self : SkipListImpl K V maxLevel) (r : Ref) : ℕ := (self.links (some r)).length

def link (self : SkipListImpl K V maxLevel) (p : Option Ref) (i : ℕ) : Option Ref := (self.links p)[i]?.join

def entry (self : SkipListImpl K V maxLevel) (r : Ref) : Option (K × V) :=
  (self.nodes.lookup r).map fun node => (node.key, node.value)

section Nodes

variable {self self' : SkipListImpl K V maxLevel} {p : Option Ref} {i : ℕ} {r : Ref} {key : K} {val : V}

theorem links_some_eq (self : SkipListImpl K V maxLevel) (r : Ref) :
    self.links (some r) = ((self.nodes.lookup r).map Node.forward).getD [] := rfl

theorem links_some {n : Node K V} (h : self.nodes.lookup r = some n) : self.links (some r) = n.forward := by
  rw [links_some_eq, h]
  rfl

theorem node_eq {n : Node K V} (h : self.nodes.lookup r = some n) : self.node r = .ok n := by
  unfold node
  rw [h]

/-- Links lie in a node that is there. -/
theorem lookup_of_lt (h : i < (self.links (some r)).length) : ∃ n, self.nodes.lookup r = some n := by
  cases hlookup : self.nodes.lookup r with
  | some n => exact ⟨n, rfl⟩
  | none =>
    rw [links_some_eq, hlookup] at h
    cases h

theorem getForward_eq (h : i < (self.links p).length) : self.getForward p i = .ok (self.link p i) := by
  have hforward : self.forwardOf p = .ok (self.links p) := by
    cases p with
    | none => rfl
    | some r =>
      obtain ⟨n, hlookup⟩ := lookup_of_lt h
      rw [links_some hlookup, forwardOf, node_eq hlookup]
      rfl
  unfold getForward link
  rw [hforward]
  show (match (self.links p)[i]? with
    | none => .error .outOfBounds
    | some link => .ok link : Except Trap (Option Ref)) = .ok (self.links p)[i]?.join
  rw [List.getElem?_eq_getElem h]
  rfl

/-- The predecessor of a place has a link at the level. -/
theorem lt_length_links (h : self.head.length = maxLevel) (hi : i < maxLevel) (before : List Ref) :
    i < (self.links (last? self.height i before)).length := by
  cases hlast : last? self.height i before with
  | none =>
    show i < self.head.length
    rw [h]
    exact hi
  | some r => exact (mem_of_last? hlast).2

theorem node_of_entry (h : self.entry r = some (key, val)) :
    ∃ n, self.nodes.lookup r = some n ∧ self.node r = .ok n ∧ n.key = key ∧ n.value = val := by
  obtain ⟨n, hlookup, heq⟩ := Option.map_eq_some_iff.mp h
  obtain ⟨hkey, hval⟩ := Prod.mk.inj heq
  exact ⟨n, hlookup, node_eq hlookup, hkey, hval⟩

theorem key_of_entry (h : self.entry r = some (key, val)) : ∀ e ∈ self.entry r, e.1 = key := by
  intro e he
  rw [h] at he
  obtain rfl := Option.some.inj he
  rfl

@[simp] theorem links_putNode (n : Node K V) (p : Option Ref) :
    (self.putNode r n).links p = if p = some r then n.forward else self.links p := by
  cases p with
  | none => exact (if_neg (Option.some_ne_none r).symm).symm
  | some r' =>
    rw [links_some_eq, links_some_eq, putNode, FMap.lookup_insert_eq]
    by_cases hr : r' = r
    · rw [if_pos hr, if_pos (congrArg some hr)]
      rfl
    · rw [if_neg hr, if_neg fun heq => hr (Option.some.inj heq)]

@[simp] theorem entry_putNode (n : Node K V) (r' : Ref) :
    (self.putNode r n).entry r' = if r' = r then some (n.key, n.value) else self.entry r' := by
  unfold entry
  rw [putNode, FMap.lookup_insert_eq]
  by_cases hr : r' = r
  · rw [if_pos hr, if_pos hr]
    rfl
  · rw [if_neg hr, if_neg hr]

@[simp] theorem mem_keys_putNode (n : Node K V) (r' : Ref) :
    r' ∈ (self.putNode r n).nodes.keys ↔ r' = r ∨ r' ∈ self.nodes.keys := by
  rw [putNode, Finmap.mem_keys, Finmap.mem_insert, Finmap.mem_keys]

/-- The lists differ in their links only. -/
structure SameNodes (s s' : SkipListImpl K V maxLevel) : Prop where
  entry : s'.entry = s.entry
  height : s'.height = s.height
  head : s'.head.length = s.head.length
  keys : s'.nodes.keys = s.nodes.keys
  level : s'.level = s.level
  lastInserted : s'.lastInserted = s.lastInserted

theorem SameNodes.refl (self : SkipListImpl K V maxLevel) : SameNodes self self := ⟨rfl, rfl, rfl, rfl, rfl, rfl⟩

theorem SameNodes.trans {s : SkipListImpl K V maxLevel} (h : SameNodes self self')
    (h' : SameNodes self' s) : SameNodes self s where
  entry := h'.entry.trans h.entry
  height := h'.height.trans h.height
  head := h'.head.trans h.head
  keys := h'.keys.trans h.keys
  level := h'.level.trans h.level
  lastInserted := h'.lastInserted.trans h.lastInserted

theorem SameNodes.length_links (h : SameNodes self self') (p : Option Ref) :
    (self'.links p).length = (self.links p).length := by
  cases p with
  | none => exact h.head
  | some r => exact congrFun h.height r

theorem join_getElem?_set {forward : List (Option Ref)} (h : i < forward.length) (l : Option Ref) (i' : ℕ) :
    (forward.set i l)[i']?.join = if i' = i then l else forward[i']?.join := by
  rw [List.getElem?_set]
  by_cases hsame : i = i'
  · rw [if_pos hsame, if_pos h, if_pos hsame.symm]
    rfl
  · rw [if_neg hsame, if_neg (Ne.symm hsame)]

/-- **A link that is set**, and no other. -/
theorem setForward_eq (h : i < (self.links p).length) (l : Option Ref) :
    ∃ self', self.setForward p i l = .ok self' ∧ SameNodes self self' ∧
      ∀ p' i', self'.link p' i' = if p' = p ∧ i' = i then l else self.link p' i' := by
  cases p with
  | none =>
    refine ⟨_, if_pos h, ⟨rfl, rfl, List.length_set, rfl, rfl, rfl⟩, fun p' i' => ?_⟩
    cases p' with
    | none =>
      rw [if_congr (and_iff_right rfl) rfl rfl]
      exact join_getElem?_set h l i'
    | some r' => exact (if_neg fun hand => Option.some_ne_none _ hand.1).symm
  | some r =>
    obtain ⟨n, hlookup⟩ := lookup_of_lt h
    have hi : i < n.forward.length := by rwa [links_some hlookup] at h
    have hold : self.links (some r) = n.forward := links_some hlookup
    refine ⟨self.putNode r { n with forward := n.forward.set i l }, ?_, ⟨?_, ?_, rfl, ?_, rfl, rfl⟩, fun p' i' => ?_⟩
    · show (self.node r >>= _) = _
      rw [node_eq hlookup]
      exact if_pos hi
    · funext r'
      rw [entry_putNode]
      by_cases hr : r' = r
      · rw [if_pos hr, hr, entry, hlookup]
        rfl
      · rw [if_neg hr]
    · funext r'
      unfold height
      rw [links_putNode]
      by_cases hr : r' = r
      · rw [if_pos (congrArg some hr), hr, hold, List.length_set]
      · rw [if_neg fun heq => hr (Option.some.inj heq)]
    · ext r'
      rw [mem_keys_putNode]
      refine ⟨fun h => h.elim (fun heq => ?_) id, Or.inr⟩
      rw [heq]
      exact Finmap.mem_keys.mpr (Finmap.mem_iff.mpr ⟨n, hlookup⟩)
    · unfold link
      rw [links_putNode]
      by_cases hp : p' = some r
      · rw [if_pos hp, join_getElem?_set hi, hp, hold]
        exact if_congr (and_iff_right rfl).symm rfl rfl
      · rw [if_neg hp, if_neg fun hand => hp hand.1]

end Nodes

/-! ## The row -/

variable [LinearOrder K]

def KeyLt (self : SkipListImpl K V maxLevel) (key : K) (r : Ref) : Prop := ∀ e ∈ self.entry r, e.1 < key

def KeyGe (self : SkipListImpl K V maxLevel) (key : K) (r : Ref) : Prop := ∀ e ∈ self.entry r, key ≤ e.1

/-- The nodes are a row of ascending keys, threaded through the levels of the list. -/
structure Rep (s : SkipListImpl K V maxLevel) (row : List Ref) : Prop where
  threads : Threads s.height maxLevel s.link row
  nodup : row.Nodup
  keys : ∀ r, r ∈ s.nodes.keys ↔ r ∈ row
  heights : ∀ r ∈ row, 0 < s.height r ∧ s.height r ≤ s.level
  level : 0 < s.level ∧ s.level ≤ maxLevel
  head : s.head.length = maxLevel
  ascending : row.Pairwise fun r r' => ∀ e ∈ s.entry r, ∀ e' ∈ s.entry r', e.1 < e'.1
  last : ∀ r ∈ s.lastInserted, r ∈ row

/-- The row is cut where a key belongs. -/
structure Cut (s : SkipListImpl K V maxLevel) (key : K) (lo hi : List Ref) : Prop where
  lo : ∀ r ∈ lo, s.KeyLt key r
  hi : ∀ r ∈ hi, s.KeyGe key r

namespace Rep

variable {self : SkipListImpl K V maxLevel} {row lo hi : List Ref} {key : K}

theorem entry (h : Rep self row) {r : Ref} (hr : r ∈ row) : ∃ key val, self.entry r = some (key, val) := by
  obtain ⟨n, hn⟩ := Finmap.mem_iff.mp (Finmap.mem_keys.mp ((h.keys r).mpr hr))
  exact ⟨n.key, n.value, congrArg (Option.map _) hn⟩

theorem exists_cut (h : Rep self row) (key : K) : ∃ lo hi, row = lo ++ hi ∧ Cut self key lo hi := by
  have hentry : ∀ r ∈ row, ∃ key val, self.entry r = some (key, val) := fun r hr => h.entry hr
  have hasc := h.ascending
  clear h
  induction row with
  | nil => exact ⟨[], [], rfl, List.forall_mem_nil _, List.forall_mem_nil _⟩
  | cons r row ih =>
    obtain ⟨hfirst, hasc⟩ := List.pairwise_cons.mp hasc
    obtain ⟨k, v, hr⟩ := hentry r List.mem_cons_self
    by_cases hlt : k < key
    · obtain ⟨lo, hi, rfl, hcut⟩ := ih (fun r' hr' => hentry r' (List.mem_cons_of_mem _ hr')) hasc
      refine ⟨r :: lo, hi, rfl, List.forall_mem_cons.mpr ⟨fun e he => ?_, hcut.lo⟩, hcut.hi⟩
      rw [hr] at he
      obtain rfl := Option.some.inj he
      exact hlt
    · refine ⟨[], r :: row, rfl, List.forall_mem_nil _,
        List.forall_mem_cons.mpr ⟨fun e he => ?_, fun r' hr' e he => ?_⟩⟩
      · rw [hr] at he
        obtain rfl := Option.some.inj he
        exact not_lt.mp hlt
      · exact (not_lt.mp hlt).trans (hfirst r' hr' (k, v) hr e he).le

theorem length_lt_fuel (h : Rep self row) : row.length < self.fuel := by
  have hsub : row.toFinset ⊆ self.nodes.keys := fun r hr => (h.keys r).mpr (List.mem_toFinset.mp hr)
  have hcard := Finset.card_le_card hsub
  rw [List.toFinset_card_of_nodup h.nodup] at hcard
  exact Nat.lt_succ_of_le hcard

theorem getForward_last (h : Rep self row) {i : ℕ} (hi : i < maxLevel) {before after : List Ref}
    (hrow : row = before ++ after) :
    self.getForward (last? self.height i before) i = .ok (next? self.height i after) := by
  rw [getForward_eq (lt_length_links h.head hi before), h.threads i hi before after hrow]

theorem walk_none {i fuel : ℕ} {p : Option Ref} (h : self.getForward p i = .ok none) :
    self.walk key i (fuel + 1) p = .ok p := by
  rw [walk, h]
  rfl

theorem walk_some {i fuel : ℕ} {p : Option Ref} {r : Ref} {n : Node K V} (h : self.getForward p i = .ok (some r))
    (hn : self.node r = .ok n) :
    self.walk key i (fuel + 1) p = if compare n.key key ≠ .lt then .ok p else self.walk key i fuel (some r) := by
  rw [walk, h]
  show (self.node r >>= _) = _
  rw [hn]
  rfl

/-- **One level**: from the predecessor of a place in front of the key to the predecessor of the key. -/
theorem walk_eq (h : Rep self row) (hcut : Cut self key lo hi) {i : ℕ} (hi' : i < maxLevel)
    (before rest : List Ref) (hlo : lo = before ++ rest) (hrow : row = lo ++ hi) {fuel : ℕ}
    (hfuel : rest.length < fuel) :
    self.walk key i fuel (last? self.height i before) = .ok (last? self.height i lo) := by
  induction rest generalizing before fuel with
  | nil =>
    obtain ⟨fuel, rfl⟩ := Nat.exists_eq_succ_of_ne_zero (Nat.ne_of_gt hfuel)
    rw [List.append_nil] at hlo
    rw [hlo]
    have hnext := h.getForward_last hi' (hrow.trans (by rw [hlo]))
    cases hr : next? self.height i hi with
    | none =>
      rw [hr] at hnext
      exact walk_none hnext
    | some r =>
      rw [hr] at hnext
      have hmem := (mem_of_next? hr).1
      obtain ⟨k, v, hentry⟩ := h.entry (by rw [hrow]; exact List.mem_append_right _ hmem)
      obtain ⟨n, -, hn, rfl, -⟩ := node_of_entry hentry
      have hge : ¬ n.key < key := not_lt.mpr (hcut.hi r hmem _ hentry)
      rw [walk_some hnext hn, if_pos fun hlt => hge (compare_lt_iff_lt.mp hlt)]
  | cons r rest ih =>
    have hnext : self.getForward (last? self.height i before) i = .ok (next? self.height i (r :: (rest ++ hi))) :=
      h.getForward_last hi' (by rw [hrow, hlo, List.append_assoc]; rfl)
    have hlo' : lo = (before ++ [r]) ++ rest := by rw [hlo, List.append_assoc, List.singleton_append]
    rw [List.length_cons] at hfuel
    by_cases hheight : i < self.height r
    · obtain ⟨fuel, rfl⟩ := Nat.exists_eq_succ_of_ne_zero (Nat.ne_of_gt ((Nat.zero_le _).trans_lt hfuel))
      rw [next?_cons_of_lt hheight] at hnext
      have hmem : r ∈ lo := by rw [hlo]; simp
      obtain ⟨k, v, hentry⟩ := h.entry (by rw [hrow]; exact List.mem_append_left _ hmem)
      obtain ⟨n, -, hn, rfl, -⟩ := node_of_entry hentry
      have hlt : n.key < key := hcut.lo r hmem _ hentry
      rw [walk_some hnext hn, if_neg (not_not_intro (compare_lt_iff_lt.mpr hlt)), ← last?_concat_of_lt hheight]
      exact ih _ hlo' (by omega)
    · -- the level passes over this node
      rw [← last?_concat_of_le (Nat.not_lt.mp hheight)]
      exact ih _ hlo' (by omega)

/-- From the top level down, `update` gets the predecessor of the key at each level. -/
theorem findFrom_eq (h : Rep self row) (hcut : Cut self key lo hi) (hrow : row = lo ++ hi) {level : ℕ}
    (hlevel : level < maxLevel) (before after : List Ref) (hlo : lo = before ++ after) :
    self.findFrom key level (last? self.height level before) =
      .ok (last? self.height 0 lo, (List.range (level + 1)).map fun i => last? self.height i lo) := by
  have hfuel : after.length < self.fuel := by
    have hlength := h.length_lt_fuel
    rw [hrow, hlo, List.length_append, List.length_append] at hlength
    omega
  induction level generalizing before after with
  | zero =>
    rw [findFrom, h.walk_eq hcut hlevel before after hlo hrow hfuel]
    rfl
  | succ level ih =>
    obtain ⟨before', after', hlo', hlast⟩ : ∃ before' after', lo = before' ++ after' ∧
        last? self.height (level + 1) lo = last? self.height level before' := last?_lower (Nat.le_succ level) lo
    have hfuel' : after'.length < self.fuel := by
      have hlength := h.length_lt_fuel
      rw [hrow, hlo', List.length_append, List.length_append] at hlength
      omega
    rw [findFrom, h.walk_eq hcut hlevel before after hlo hrow hfuel]
    show (self.findFrom key level (last? self.height (level + 1) lo) >>= _) = _
    rw [hlast, ih (by omega) before' after' hlo' hfuel', ← hlast, List.range_succ (n := level + 1), List.map_append]
    rfl

/-- **`find` comes to the place of the key**, with its predecessor at each level. -/
theorem find_eq (h : Rep self row) (hcut : Cut self key lo hi) (hrow : row = lo ++ hi) :
    self.find key = .ok (hi.head?, (List.range self.level).map fun i => last? self.height i lo) := by
  obtain ⟨level, hlevel⟩ := Nat.exists_eq_succ_of_ne_zero (Nat.ne_of_gt h.level.1)
  have htop : level < maxLevel := by
    have hmax := h.level.2
    omega
  have hfirst : next? self.height 0 hi = hi.head? := by
    unfold next?
    rw [chain_eq_self fun r hr => (h.heights r (by rw [hrow]; exact List.mem_append_right _ hr)).1]
  have hfrom := h.findFrom_eq hcut hrow htop [] lo rfl
  have hnext := h.getForward_last ((Nat.zero_le _).trans_lt htop) hrow
  unfold find
  rw [hlevel]
  show (self.findFrom key level none >>= _) = _
  rw [last?_nil] at hfrom
  rw [hfrom]
  show (self.getForward (last? self.height 0 lo) 0 >>= _) = _
  rw [hnext, hfirst]
  rfl

end Rep

end SkipListImpl

end Slung
