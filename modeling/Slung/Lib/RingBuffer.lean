import Mathlib.Data.List.Rotate
import Mathlib.Data.Nat.ModEq

/-!
# Slung.Lib.RingBuffer — a queue in a ring of slots

A fixed buffer with a head, a tail and a count, all arithmetic modulo its length.  `toList` is the queue that it
holds, oldest first; `push` and `pop` are what they are for a list (`toList_push`, `toList_pop`), and `cycle` takes
every item out once and puts all but one of them back (`toList_cycle`).
-/

namespace Slung.Lib

/-- A ring of slots; what is in the slots outside of the queue does not matter. -/
structure RingBuffer (α : Type) where
  slots : List α
  head : ℕ
  tail : ℕ
  count : ℕ
  count_le : count ≤ slots.length
  head_mod : head % slots.length = head
  tail_eq : tail = (head + count) % slots.length

namespace RingBuffer

variable {α β : Type}

def init (slots : List α) : RingBuffer α := ⟨slots, 0, 0, 0, Nat.zero_le _, Nat.zero_mod _, (Nat.zero_mod _).symm⟩

/-- The slot at an offset from the head. -/
def slotAt (r : RingBuffer α) (offset : ℕ) : Option α := r.slots[(r.head + offset) % r.slots.length]?

/-- `none` when the ring is full. -/
def push (r : RingBuffer α) (x : α) : Option (RingBuffer α) :=
  if h : r.count ≥ r.slots.length then none
  else some {
    slots := r.slots.set r.tail x
    head := r.head
    tail := (r.tail + 1) % r.slots.length
    count := r.count + 1
    count_le := by rw [List.length_set]; omega
    head_mod := by rw [List.length_set]; exact r.head_mod
    tail_eq := by rw [List.length_set, r.tail_eq, Nat.mod_add_mod, Nat.add_assoc] }

theorem head_lt {r : RingBuffer α} (h : r.count ≠ 0) : r.head < r.slots.length := by
  rw [← r.head_mod]
  exact Nat.mod_lt _ (by have := r.count_le; omega)

def pop (r : RingBuffer α) : Option (α × RingBuffer α) :=
  if h : r.count = 0 then none
  else some (r.slots.get ⟨r.head, head_lt h⟩, {
    slots := r.slots
    head := (r.head + 1) % r.slots.length
    tail := r.tail
    count := r.count - 1
    count_le := by have := r.count_le; omega
    head_mod := Nat.mod_mod _ _
    tail_eq := by rw [r.tail_eq, Nat.mod_add_mod]; congr 1; omega })

def clear (r : RingBuffer α) : RingBuffer α := init r.slots

/-- Take the items at the offsets out, one after the other, and put all of them back but the one at `target`. -/
def cycle (f : α → α) (target : ℕ) (r : RingBuffer α) (offsets : List ℕ) : Option (RingBuffer α) :=
  offsets.foldlM (fun r offset => r.pop.bind fun (x, r) => if offset = target then some r else r.push (f x)) r

/-! ## The queue in the ring -/

/-- The items of the queue, oldest first. -/
def toList (r : RingBuffer α) : List α := (r.slots.rotate r.head).take r.count

@[simp] theorem toList_init (slots : List α) : (init slots).toList = [] := rfl

@[simp] theorem length_toList (r : RingBuffer α) : r.toList.length = r.count := by
  unfold toList
  rw [List.length_take, List.length_rotate]
  exact Nat.min_eq_left r.count_le

theorem toList_get? (r : RingBuffer α) {offset : ℕ} (h : offset < r.count) : r.toList[offset]? = r.slotAt offset := by
  have hlen : offset < r.slots.length := Nat.lt_of_lt_of_le h r.count_le
  unfold toList slotAt
  rw [List.getElem?_take_of_lt h, List.getElem?_rotate hlen, Nat.add_comm]

/-- A list is the queue when it has its length and its items. -/
theorem toList_eq {r : RingBuffer α} {l : List α} (hlen : l.length = r.count)
    (hitems : ∀ k < r.count, l[k]? = r.slotAt k) : r.toList = l := by
  refine List.ext_getElem? fun k => ?_
  by_cases hk : k < r.count
  · rw [r.toList_get? hk, hitems k hk]
  · rw [List.getElem?_eq_none (by rw [length_toList]; omega), List.getElem?_eq_none (by omega)]

theorem push_isSome_iff (r : RingBuffer α) (x : α) : (r.push x).isSome ↔ r.count < r.slots.length := by
  unfold push
  split <;> simp <;> omega

theorem toList_push {r r' : RingBuffer α} {x : α} (h : r.push x = some r') :
    r'.toList = r.toList ++ [x] ∧ r'.slots.length = r.slots.length := by
  unfold push at h
  split at h
  · cases h
  rename_i hroom
  obtain rfl := Option.some.inj h
  refine ⟨toList_eq (by simp) fun k hk => ?_, List.length_set⟩
  have htail : r.tail < r.slots.length := r.tail_eq ▸ Nat.mod_lt _ (by omega)
  unfold slotAt
  simp only [List.length_set]
  by_cases hlt : k < r.count
  · -- an older item: its slot is not the tail
    have hne : r.tail ≠ (r.head + k) % r.slots.length := by
      intro heq
      have hmod : Nat.ModEq r.slots.length r.count k :=
        Nat.ModEq.add_left_cancel' r.head (r.tail_eq.symm.trans heq)
      have := hmod.eq_of_lt_of_lt (by omega) (by omega)
      omega
    rw [List.getElem?_append_left (by simpa using hlt), r.toList_get? hlt, List.getElem?_set_ne hne]
    rfl
  · obtain rfl : k = r.count := by simp only at hk; omega
    rw [List.getElem?_append_right (by simp), ← r.tail_eq, List.getElem?_set_self htail]
    simp

theorem pop_eq_none_iff (r : RingBuffer α) : r.pop = none ↔ r.toList = [] := by
  rw [← List.length_eq_zero_iff, length_toList]
  unfold pop
  split <;> simp_all

theorem toList_pop {r r' : RingBuffer α} {x : α} (h : r.pop = some (x, r')) :
    r.toList = x :: r'.toList ∧ r'.slots = r.slots := by
  unfold pop at h
  split at h
  · cases h
  rename_i hne
  obtain ⟨rfl, rfl⟩ := Prod.mk.inj (Option.some.inj h)
  refine ⟨toList_eq (by simp; omega) fun k hk => ?_, rfl⟩
  cases k with
  | zero =>
    have hhead : (r.head + 0) % r.slots.length = r.head := r.head_mod
    unfold slotAt
    rw [hhead, List.getElem?_eq_getElem (head_lt hne)]
    rfl
  | succ k =>
    rw [List.getElem?_cons_succ, toList_get? _ (by simp only; omega)]
    unfold slotAt
    simp only
    rw [Nat.mod_add_mod, Nat.add_assoc, Nat.add_comm 1 k]

/-! ## Taking every item out once -/

/-- The items that a pass leaves at the end, without the one at `target`. -/
def passed (f : α → α) (target k : ℕ) (l : List α) : List α :=
  ((l.zipIdx k).filter (·.2 ≠ target)).map fun p => f p.1

/-- A pass never finds the ring empty or full. -/
theorem cycle_spec (f : α → α) (target : ℕ) : ∀ (todo done : List α) (r : RingBuffer α) (k : ℕ),
    r.toList = todo ++ done → ∃ r', r.cycle f target (List.range' k todo.length) = some r' ∧
      r'.toList = done ++ passed f target k todo ∧ r'.slots.length = r.slots.length
  | [], done, r, k, h => ⟨r, rfl, by simpa [passed] using h, rfl⟩
  | x :: todo, done, r, k, h => by
    obtain ⟨⟨y, r₁⟩, hpop⟩ : ∃ p, r.pop = some p := by
      rw [← Option.ne_none_iff_exists']
      intro hnone
      have := r.pop_eq_none_iff.mp hnone
      simp [h] at this
    obtain ⟨hlist, hslots⟩ := toList_pop hpop
    rw [h, List.cons_append] at hlist
    obtain ⟨rfl, hrest⟩ := List.cons.inj hlist
    have hstep : r.cycle f target (List.range' k (todo.length + 1)) =
        (if k = target then some r₁ else r₁.push (f x)).bind
          fun r => r.cycle f target (List.range' (k + 1) todo.length) := by
      unfold cycle
      rw [List.range'_succ, List.foldlM_cons, hpop]
      rfl
    rw [List.length_cons, hstep]
    by_cases hk : k = target
    · obtain ⟨r', hr', hl, hlen⟩ := cycle_spec f target todo done r₁ (k + 1) hrest.symm
      refine ⟨r', by rw [if_pos hk]; exact hr', ?_, by rw [hlen, hslots]⟩
      rw [hl]
      simp [passed, List.zipIdx_cons, hk]
    · have hroom : r₁.count < r₁.slots.length := by
        have hcount := congrArg List.length h
        have hcount₁ := congrArg List.length hrest
        have := r.count_le
        simp only [List.length_append, List.length_cons, length_toList] at hcount hcount₁
        rw [hslots]
        omega
      obtain ⟨r₂, hpush⟩ := Option.isSome_iff_exists.mp ((r₁.push_isSome_iff (f x)).mpr hroom)
      obtain ⟨hl₂, hlen₂⟩ := toList_push hpush
      obtain ⟨r', hr', hl, hlen⟩ := cycle_spec f target todo (done ++ [f x]) r₂ (k + 1)
        (by rw [hl₂, ← hrest, List.append_assoc])
      refine ⟨r', by rw [if_neg hk, hpush]; exact hr', ?_, by rw [hlen, hlen₂, hslots]⟩
      rw [hl]
      simp [passed, List.zipIdx_cons, hk]

theorem passed_of_lt (f : α → α) {target : ℕ} : ∀ {k : ℕ} (_ : target < k) (l : List α),
    passed f target k l = l.map f
  | k, _, [] => rfl
  | k, h, x :: l => by
    have ih := passed_of_lt f (Nat.lt_succ_of_lt h) l
    unfold passed at ih ⊢
    rw [List.zipIdx_cons, List.filter_cons_of_pos (by simp; omega), List.map_cons, ih, List.map_cons]

theorem passed_eq (f : α → α) : ∀ (target k : ℕ) (l : List α),
    passed f (k + target) k l = (l.eraseIdx target).map f
  | target, k, [] => rfl
  | 0, k, x :: l => by
    have hrest := passed_of_lt f (Nat.lt_succ_self k) l
    unfold passed at hrest ⊢
    rw [List.zipIdx_cons, List.filter_cons_of_neg (by simp), Nat.add_zero]
    exact hrest
  | target + 1, k, x :: l => by
    have ih := passed_eq f target (k + 1) l
    rw [show k + 1 + target = k + (target + 1) by omega] at ih
    unfold passed at ih ⊢
    rw [List.zipIdx_cons, List.filter_cons_of_pos (by simp), List.map_cons, ih, List.eraseIdx_cons_succ, List.map_cons]

/-- **A pass over the whole ring takes out the item at its target** and keeps the order of the others. -/
theorem toList_cycle (f : α → α) (target : ℕ) (r : RingBuffer α) :
    ∃ r', r.cycle f target (List.range r.count) = some r' ∧ r'.toList = (r.toList.eraseIdx target).map f ∧
      r'.slots.length = r.slots.length := by
  obtain ⟨r', hr', hlist, hlen⟩ := cycle_spec f target r.toList [] r 0 (List.append_nil _).symm
  rw [length_toList, ← List.range_eq_range'] at hr'
  refine ⟨r', hr', ?_, hlen⟩
  rw [hlist, List.nil_append, ← passed_eq f target 0, Nat.zero_add]

/-! ## The last item of a kind -/

/-- The offset of the last item with `p`, by a scan from the front. -/
def lastOffset (p : α → Bool) (r : RingBuffer α) : Option ℕ :=
  (List.range r.count).foldl (fun target offset => if (r.slotAt offset).any p then some offset else target) none

/-- The same scan of a list. -/
def lastIdx (p : α → Bool) (l : List α) : Option ℕ :=
  (List.range l.length).foldl (fun target offset => if l[offset]?.any p then some offset else target) none

theorem lastOffset_eq (p : α → Bool) (r : RingBuffer α) : r.lastOffset p = lastIdx p r.toList := by
  unfold lastOffset lastIdx
  rw [length_toList]
  refine List.foldl_ext _ _ none fun target offset h => ?_
  rw [r.toList_get? (List.mem_range.mp h)]

theorem lastIdx_append (p : α → Bool) (l : List α) (x : α) :
    lastIdx p (l ++ [x]) = if p x then some l.length else lastIdx p l := by
  have hfront : (List.range l.length).foldl
      (fun target offset => if (l ++ [x])[offset]?.any p then some offset else target) none = lastIdx p l := by
    refine List.foldl_ext _ _ none fun target offset h => ?_
    rw [List.getElem?_append_left (List.mem_range.mp h)]
  unfold lastIdx at hfront ⊢
  rw [List.length_append, List.length_singleton, List.range_succ, List.foldl_append, hfront]
  simp

theorem lastIdx_lt (p : α → Bool) {l : List α} {i : ℕ} (h : lastIdx p l = some i) : i < l.length := by
  induction l using List.reverseRecOn with
  | nil => cases h
  | append_singleton l x ih =>
    rw [lastIdx_append] at h
    rw [List.length_append, List.length_singleton]
    split_ifs at h
    · obtain rfl := Option.some.inj h
      exact Nat.lt_succ_self _
    · exact Nat.lt_succ_of_lt (ih h)

theorem lastIdx_isSome (p : α → Bool) (l : List α) : (lastIdx p l).isSome = l.any p := by
  induction l using List.reverseRecOn with
  | nil => rfl
  | append_singleton l x ih =>
    rw [lastIdx_append, List.any_append, ← ih]
    cases hx : p x <;> simp [hx]

/-- The item at the last index stands before items without `p`. -/
theorem lastIdx_split (p : α → Bool) {l : List α} {i : ℕ} (h : lastIdx p l = some i) :
    ∃ front x back, l = front ++ x :: back ∧ p x = true ∧ (∀ y ∈ back, p y = false) ∧
      l.eraseIdx i = front ++ back := by
  induction l using List.reverseRecOn generalizing i with
  | nil => cases h
  | append_singleton l x ih =>
    rw [lastIdx_append] at h
    by_cases hx : p x
    · rw [if_pos hx] at h
      obtain rfl := Option.some.inj h
      refine ⟨l, x, [], rfl, hx, nofun, ?_⟩
      rw [List.eraseIdx_append_of_length_le (Nat.le_refl _), Nat.sub_self, List.eraseIdx_cons_zero]
    · rw [if_neg hx] at h
      obtain ⟨front, y, back, rfl, hy, hback, herase⟩ := ih h
      refine ⟨front, y, back ++ [x], by simp, hy, fun z hz => ?_, ?_⟩
      · rcases List.mem_append.mp hz with hz | hz
        · exact hback z hz
        · rw [List.mem_singleton.mp hz]
          exact Bool.eq_false_iff.mpr hx
      · rw [List.eraseIdx_append_of_lt_length (lastIdx_lt p h), herase, List.append_assoc]

/-- Erasing the last item with `p` is erasing the first one from the other end. -/
theorem eraseIdx_lastIdx (p : α → Bool) {l : List α} {i : ℕ} (h : lastIdx p l = some i) :
    l.eraseIdx i = (l.reverse.eraseP p).reverse := by
  induction l using List.reverseRecOn with
  | nil => cases h
  | append_singleton l x ih =>
    rw [lastIdx_append] at h
    rw [List.reverse_append, List.reverse_singleton, List.singleton_append]
    by_cases hx : p x
    · rw [if_pos hx] at h
      obtain rfl := Option.some.inj h
      rw [List.eraseP_cons_of_pos hx, List.reverse_reverse, List.eraseIdx_append_of_length_le (Nat.le_refl _),
        Nat.sub_self, List.eraseIdx_cons_zero, List.append_nil]
    · rw [if_neg hx] at h
      rw [List.eraseP_cons_of_neg hx, List.reverse_cons, ← ih h, List.eraseIdx_append_of_lt_length (lastIdx_lt p h)]

end RingBuffer

end Slung.Lib
