import Mathlib.Data.List.Induction
import Mathlib.Data.List.Nodup

/-!
# Slung.Lib.Threads — lists threaded through one row at several levels

Every element of a row has a height.  At each level below its height it has a link to the next element that is as
high, and so has the head of the row, which is `none` here.  `Threads` says that the links are these.  It is kept
when an element is spliced in behind its predecessor of each level (`splice`), and when one is taken out
(`unlink`).
-/

namespace Slung.Lib

variable {α : Type} (height : α → ℕ)

/-- The elements of a level. -/
def chain (i : ℕ) (row : List α) : List α := row.filter fun a => i < height a

/-- The first element of a level, -/
def next? (i : ℕ) (row : List α) : Option α := (chain height i row).head?

/-- and the last; `none` is the head. -/
def last? (i : ℕ) (row : List α) : Option α := (chain height i row).getLast?

/-- Up to the top level, the predecessor of any place is linked to its successor. -/
def Threads (top : ℕ) (link : Option α → ℕ → Option α) (row : List α) : Prop :=
  ∀ i < top, ∀ before after, row = before ++ after → link (last? height i before) i = next? height i after

section Levels

variable {height} {i j : ℕ} {row row' : List α} {a : α}

@[simp] theorem last?_nil : last? height i [] = none := rfl

@[simp] theorem mem_chain : a ∈ chain height i row ↔ a ∈ row ∧ i < height a := by simp [chain]

theorem chain_append : chain height i (row ++ row') = chain height i row ++ chain height i row' := List.filter_append ..

theorem next?_append : next? height i (row ++ row') = (next? height i row).or (next? height i row') := by
  unfold next?
  rw [chain_append, List.head?_append]

theorem last?_append : last? height i (row ++ row') = (last? height i row').or (last? height i row) := by
  unfold last?
  rw [chain_append, List.getLast?_append]

theorem chain_cons_of_lt (h : i < height a) : chain height i (a :: row) = a :: chain height i row :=
  List.filter_cons_of_pos (by simpa using h)

theorem chain_cons_of_le (h : height a ≤ i) : chain height i (a :: row) = chain height i row :=
  List.filter_cons_of_neg (by simpa using h)

theorem next?_cons_of_lt (h : i < height a) : next? height i (a :: row) = some a := by
  unfold next?
  rw [chain_cons_of_lt h, List.head?_cons]

theorem next?_cons_of_le (h : height a ≤ i) : next? height i (a :: row) = next? height i row := by
  unfold next?
  rw [chain_cons_of_le h]

theorem last?_singleton_of_lt (h : i < height a) : last? height i [a] = some a := by
  unfold last?
  rw [chain_cons_of_lt h]
  rfl

theorem last?_singleton_of_le (h : height a ≤ i) : last? height i [a] = none := by
  unfold last?
  rw [chain_cons_of_le h]
  rfl

theorem last?_middle {before : List α} : last? height i (before ++ a :: row) =
    (last? height i row).or ((last? height i [a]).or (last? height i before)) := by
  rw [← List.singleton_append, last?_append, last?_append, Option.or_assoc]

theorem last?_concat_of_lt (h : i < height a) : last? height i (row ++ [a]) = some a := by
  rw [last?_append, last?_singleton_of_lt h, Option.some_or]

theorem last?_concat_of_le (h : height a ≤ i) : last? height i (row ++ [a]) = last? height i row := by
  rw [last?_append, last?_singleton_of_le h, Option.none_or]

theorem mem_of_next? (h : next? height i row = some a) : a ∈ row ∧ i < height a :=
  mem_chain.mp (List.mem_of_mem_head? h)

theorem mem_of_last? (h : last? height i row = some a) : a ∈ row ∧ i < height a :=
  mem_chain.mp (List.mem_of_getLast? h)

/-- A row has a first element of a level iff it has a last. -/
theorem next?_eq_none_iff : next? height i row = none ↔ last? height i row = none := by
  unfold next? last?
  rw [List.head?_eq_none_iff, List.getLast?_eq_none_iff]

theorem next?_eq_none : next? height i row = none ↔ ∀ a ∈ row, height a ≤ i := by
  unfold next? chain
  rw [List.head?_eq_none_iff, List.filter_eq_nil_iff]
  simp

/-- **A higher level is a sublist of a lower one.** -/
theorem chain_sublist (h : i ≤ j) (row : List α) : (chain height j row).Sublist (chain height i row) := by
  refine List.monotone_filter_right row fun a ha => ?_
  simp only [decide_eq_true_eq] at ha ⊢
  omega

/-- Where every element is high enough, the level is the row. -/
theorem chain_eq_self (h : ∀ a ∈ row, i < height a) : chain height i row = row :=
  List.filter_eq_self.mpr fun a ha => decide_eq_true (h a ha)

/-- The last element of a level ends a part of the row in which it is also the last of every lower level. -/
theorem last?_lower (h : i ≤ j) (row : List α) :
    ∃ before after, row = before ++ after ∧ last? height j row = last? height i before := by
  induction row using List.reverseRecOn with
  | nil => exact ⟨[], [], rfl, rfl⟩
  | append_singleton row a ih =>
    by_cases ha : j < height a
    · exact ⟨row ++ [a], [], (List.append_nil _).symm, by rw [last?_concat_of_lt ha, last?_concat_of_lt (by omega)]⟩
    · obtain ⟨before, after, hrow, hlast⟩ := ih
      refine ⟨before, after ++ [a], ?_, by rw [last?_concat_of_le (by omega), hlast]⟩
      rw [hrow, List.append_assoc]

theorem chain_congr {height' : α → ℕ} (h : ∀ a ∈ row, height' a = height a) :
    chain height' i row = chain height i row :=
  List.filter_congr fun a ha => by rw [h a ha]

end Levels

namespace Threads

variable {height} {top : ℕ} {link : Option α → ℕ → Option α} {row before after : List α} {a : α}

/-- The heights and links of other elements do not matter. -/
theorem congr {height' : α → ℕ} {link' : Option α → ℕ → Option α} (h : Threads height top link row)
    (hheight : ∀ a ∈ row, height' a = height a)
    (hlink : ∀ p, (∀ a ∈ p, a ∈ row) → ∀ i < top, link' p i = link p i) : Threads height' top link' row := by
  intro i hi before after hrow
  have hbefore : chain height' i before = chain height i before :=
    chain_congr fun a ha => hheight a (by rw [hrow]; exact List.mem_append_left _ ha)
  have hafter : chain height' i after = chain height i after :=
    chain_congr fun a ha => hheight a (by rw [hrow]; exact List.mem_append_right _ ha)
  rw [last?, next?, hbefore, hafter]
  have hmem : ∀ a ∈ last? height i before, a ∈ row := fun a ha => by
    rw [hrow]
    exact List.mem_append_left _ (mem_of_last? ha).1
  exact (hlink _ hmem i hi).trans (h i hi before after hrow)

/-- Where the head has no link, no element is as high. -/
theorem height_le_of_head (h : Threads height top link row) {i : ℕ} (hi : i < top) (hnone : link none i = none) :
    ∀ a ∈ row, height a ≤ i :=
  next?_eq_none.mp ((h i hi [] row rfl).symm.trans hnone)

/-- A place in a row is in front of an element of the row or behind it. -/
theorem split_cases {pre post : List α} (h : before ++ a :: after = pre ++ post) :
    (∃ mid, before = pre ++ mid ∧ post = mid ++ a :: after) ∨
      ∃ mid, pre = before ++ a :: mid ∧ after = mid ++ post := by
  rcases List.append_eq_append_iff.mp h with ⟨mid, hpre, hmid⟩ | hfront
  · cases mid with
    | nil => exact Or.inl ⟨[], by rw [hpre, List.append_nil, List.append_nil], hmid.symm⟩
    | cons b mid =>
      obtain ⟨rfl, hafter⟩ := List.cons.inj hmid
      exact Or.inr ⟨mid, hpre, hafter⟩
  · exact Or.inl hfront

/-- The predecessor of a place in a row is none of the elements behind it. -/
theorem last?_ne_some {i : ℕ} (hrow : (before ++ after).Nodup) (h : a ∈ after) :
    last? height i before ≠ some a := fun heq =>
  (List.nodup_append.mp hrow).2.2 a (mem_of_last? heq).1 a h rfl

/-- The predecessor of a place is that of an earlier one iff nothing between them is high enough. -/
theorem last?_append_cases (i : ℕ) {before mid : List α} (hrow : (before ++ mid).Nodup) :
    (next? height i mid = none ∧ last? height i (before ++ mid) = last? height i before) ∨
      ∃ b c, b ∈ mid ∧ next? height i mid = some c ∧ last? height i (before ++ mid) = some b ∧
        last? height i before ≠ some b := by
  rw [last?_append]
  cases hlast : last? height i mid with
  | none => exact Or.inl ⟨next?_eq_none_iff.mpr hlast, rfl⟩
  | some b =>
    have hnext : next? height i mid ≠ none := fun hnone =>
      Option.some_ne_none b (hlast.symm.trans (next?_eq_none_iff.mp hnone))
    obtain ⟨c, hc⟩ := Option.ne_none_iff_exists'.mp hnext
    have hb := (mem_of_last? hlast).1
    exact Or.inr ⟨b, c, hb, hc, rfl, last?_ne_some hrow hb⟩

variable [DecidableEq α]

/-- The links with `a` behind `before`: up to its height, it takes over the link of its predecessor. -/
def splice (height : α → ℕ) (link : Option α → ℕ → Option α) (before : List α) (a : α) (p : Option α) (i : ℕ) :
    Option α :=
  if i < height a then
    if p = some a then link (last? height i before) i
    else if p = last? height i before then some a
    else link p i
  else link p i

/-- The links without `a`: up to its height, its predecessor takes over its link. -/
def unlink (height : α → ℕ) (link : Option α → ℕ → Option α) (before : List α) (a : α) (p : Option α) (i : ℕ) :
    Option α :=
  if i < height a ∧ p = last? height i before then link (some a) i else link p i

theorem splice_of_le {p : Option α} {i : ℕ} (h : height a ≤ i) : splice height link before a p i = link p i :=
  if_neg (Nat.not_lt.mpr h)

theorem unlink_of_le {p : Option α} {i : ℕ} (h : height a ≤ i) : unlink height link before a p i = link p i :=
  if_neg fun hand => Nat.not_lt.mpr h hand.1

/-- What is spliced in at each of its levels is spliced in. -/
theorem eq_splice {link' : Option α → ℕ → Option α} {k : ℕ} (hk : height a ≤ k)
    (h : ∀ p i, link' p i = if i < k then splice height link before a p i else link p i) :
    link' = splice height link before a := by
  funext p i
  rw [h]
  by_cases hi : i < k
  · rw [if_pos hi]
  · rw [if_neg hi, splice_of_le (by omega)]

/-- What is taken out of each of its levels is taken out. -/
theorem eq_unlink {link' : Option α → ℕ → Option α} {k : ℕ} (hk : height a ≤ k)
    (h : ∀ p i, link' p i = if i < k then unlink height link before a p i else link p i) :
    link' = unlink height link before a := by
  funext p i
  rw [h]
  by_cases hi : i < k
  · rw [if_pos hi]
  · rw [if_neg hi, unlink_of_le (by omega)]

/-- **Splicing in keeps the threads.** -/
theorem splice_threads (h : Threads height top link (before ++ after)) (hrow : (before ++ a :: after).Nodup) :
    Threads height top (splice height link before a) (before ++ a :: after) := by
  intro i hi pre post hsplit
  have hold : (before ++ after).Nodup := hrow.sublist ((List.sublist_cons_self a after).append_left before)
  unfold splice
  rcases split_cases hsplit with ⟨mid, hbefore, rfl⟩ | ⟨mid, rfl, hafter⟩
  · -- a place in front of `a`
    have hmid : link (last? height i pre) i = next? height i (mid ++ after) :=
      h i hi pre (mid ++ after) (by rw [hbefore, List.append_assoc])
    have hfront : (pre ++ (mid ++ a :: after)).Nodup := by rwa [hbefore, List.append_assoc] at hrow
    have hne : last? height i pre ≠ some a := last?_ne_some hfront (by simp)
    rw [if_neg hne]
    rw [hbefore] at hold ⊢
    rw [next?_append] at hmid ⊢
    rcases last?_append_cases i (hold.sublist (List.sublist_append_left _ _)) with
      ⟨hnone, hsame⟩ | ⟨b, c, -, hc, hlast, hother⟩
    · rw [hsame, if_pos rfl, hmid, hnone, Option.none_or, Option.none_or]
      by_cases hlt : i < height a
      · rw [if_pos hlt, next?_cons_of_lt hlt]
      · rw [if_neg hlt, next?_cons_of_le (Nat.not_lt.mp hlt)]
    · rw [hlast, if_neg hother, ite_self, hmid, hc, Option.some_or, Option.some_or]
  · -- a place behind `a`
    rw [hafter] at hold h hrow
    have hmid : link (last? height i (before ++ mid)) i = next? height i post :=
      h i hi (before ++ mid) post (by rw [List.append_assoc])
    rw [last?_append] at hmid
    rw [last?_middle]
    cases hb : last? height i mid with
    | some b =>
      have hmem := (mem_of_last? hb).1
      have hne : b ≠ a := fun heq => (List.nodup_cons.mp (List.nodup_append.mp hrow).2.1).1
        (heq ▸ List.mem_append_left _ hmem)
      have hother : some b ≠ last? height i before := fun heq =>
        last?_ne_some hold (List.mem_append_left _ hmem) heq.symm
      rw [hb] at hmid
      rw [Option.some_or, if_neg fun heq => hne (Option.some.inj heq), if_neg hother, ite_self]
      exact hmid
    | none =>
      have hnext : next? height i mid = none := next?_eq_none_iff.mpr hb
      rw [hb, Option.none_or] at hmid
      rw [Option.none_or]
      by_cases hlt : i < height a
      · rw [last?_singleton_of_lt hlt, Option.some_or, if_pos hlt, if_pos rfl, hmid]
      · rw [last?_singleton_of_le (Nat.not_lt.mp hlt), Option.none_or, if_neg hlt, hmid]

/-- **Taking out keeps the threads.** -/
theorem unlink_threads (h : Threads height top link (before ++ a :: after)) (hrow : (before ++ a :: after).Nodup) :
    Threads height top (unlink height link before a) (before ++ after) := by
  intro i hi pre post hsplit
  have hnew : (before ++ after).Nodup := hrow.sublist ((List.sublist_cons_self a after).append_left before)
  -- what the predecessor of `a` takes over
  have hself : i < height a → link (some a) i = next? height i after := fun hlt => by
    have hlast : last? height i (before ++ [a]) = some a := last?_concat_of_lt hlt
    rw [← hlast]
    exact h i hi (before ++ [a]) after (by rw [List.append_assoc, List.singleton_append])
  unfold unlink
  rcases List.append_eq_append_iff.mp hsplit with ⟨mid, rfl, hafter⟩ | ⟨mid, hbefore, rfl⟩
  · -- a place behind `a`
    rw [hafter] at hnew hself h
    have hmid : link (last? height i (before ++ a :: mid)) i = next? height i post :=
      h i hi (before ++ a :: mid) post (by simp)
    rw [last?_middle] at hmid
    rw [last?_append]
    cases hb : last? height i mid with
    | some b =>
      have hother : some b ≠ last? height i before := fun heq =>
        last?_ne_some hnew (List.mem_append_left _ (mem_of_last? hb).1) heq.symm
      rw [hb, Option.some_or] at hmid
      rw [Option.some_or, if_neg fun hand => hother hand.2, hmid]
    | none =>
      have hnext : next? height i mid = none := next?_eq_none_iff.mpr hb
      rw [hb, Option.none_or] at hmid
      rw [Option.none_or]
      by_cases hlt : i < height a
      · rw [if_pos ⟨hlt, rfl⟩, hself hlt, next?_append, hnext, Option.none_or]
      · rw [last?_singleton_of_le (Nat.not_lt.mp hlt), Option.none_or] at hmid
        rw [if_neg fun hand => hlt hand.1, hmid]
  · -- a place in front of it
    have hmid : link (last? height i pre) i = next? height i (mid ++ a :: after) :=
      h i hi pre (mid ++ a :: after) (by rw [hbefore, List.append_assoc])
    rw [hbefore] at hnew ⊢
    rw [next?_append] at hmid ⊢
    rcases last?_append_cases i (hnew.sublist (List.sublist_append_left _ _)) with
      ⟨hnone, hsame⟩ | ⟨b, c, -, hc, hlast, hother⟩
    · rw [hsame, hnone, Option.none_or]
      by_cases hlt : i < height a
      · rw [if_pos ⟨hlt, rfl⟩, hself hlt]
      · rw [if_neg fun hand => hlt hand.1, hmid, hnone, Option.none_or, next?_cons_of_le (Nat.not_lt.mp hlt)]
    · rw [hlast, if_neg fun hand => hother hand.2, hmid, hc, Option.some_or, Option.some_or]

end Threads

end Slung.Lib
