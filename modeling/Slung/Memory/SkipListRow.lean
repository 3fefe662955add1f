import Slung.Memory.SkipList

/-!
# Slung.Memory.SkipListRow — what the operations do to the row (`memory/skiplist.zig`)

A new node is spliced in at the levels that were drawn for it (`linkNode_eq`), after the list has grown to them
(`drawLevel_eq`); a node that goes is unlinked from its levels, and the list shrinks to the highest that is left
(`deleteNode_eq`).
-/

namespace Slung

open Slung.Lib SkipList

namespace SkipListImpl

variable {K V : Type} {maxLevel : ℕ} {self : SkipListImpl K V maxLevel} {row lo hi : List Ref} {key : K} {val : V}
  {r : Ref}

def withLevel (self : SkipListImpl K V maxLevel) (level : ℕ) : SkipListImpl K V maxLevel := { self with level := level }

def eraseNode (self : SkipListImpl K V maxLevel) (r : Ref) : SkipListImpl K V maxLevel :=
  { self with nodes := self.nodes.erase r }

theorem entry_eraseNode (r' : Ref) : (self.eraseNode r).entry r' = if r' = r then none else self.entry r' := by
  unfold entry
  rw [eraseNode, FMap.lookup_erase_eq]
  by_cases hr : r' = r
  · rw [if_pos hr, if_pos hr]
    rfl
  · rw [if_neg hr, if_neg hr]

theorem links_eraseNode {p : Option Ref} (hp : p ≠ some r) : (self.eraseNode r).links p = self.links p := by
  cases p with
  | none => rfl
  | some r' =>
    have hr : r' ≠ r := fun heq => hp (congrArg some heq)
    rw [links_some_eq, links_some_eq, eraseNode, FMap.lookup_erase_eq, if_neg hr]

/-- What `find` leaves in `update`. -/
def preds (self : SkipListImpl K V maxLevel) (lo : List Ref) : List (Option Ref) :=
  (List.range self.level).map fun i => last? self.height i lo

theorem preds_getElem? {i : ℕ} (h : i < self.level) : (self.preds lo)[i]? = some (last? self.height i lo) := by
  unfold preds
  rw [List.getElem?_map, List.getElem?_range h]
  rfl

/-! ## Linking a node in -/

/-- After `k` steps, the links of the first `k` levels are spliced. -/
theorem linkAt_foldlM {update : List (Option Ref)} (hhead : self.head.length = maxLevel)
    (hmax : self.height r ≤ maxLevel) (hupdate : ∀ i < self.height r, update[i]? = some (last? self.height i lo))
    (hr : r ∉ lo) {k : ℕ} (hk : k ≤ self.height r) :
    ∃ s, (List.range k).foldlM (linkAt r update) self = .ok s ∧ SameNodes self s ∧
      ∀ p i, s.link p i = if i < k then Threads.splice self.height self.link lo r p i else self.link p i := by
  induction k with
  | zero => exact ⟨self, rfl, .refl self, fun p i => (if_neg (Nat.not_lt_zero i)).symm⟩
  | succ k ih =>
    obtain ⟨s, hrun, hsame, hlink⟩ := ih (Nat.le_of_succ_le hk)
    generalize hpred : last? self.height k lo = pred
    have hne : pred ≠ some r := fun heq => hr (mem_of_last? (hpred.trans heq)).1
    have hlt : k < (self.links pred).length := by
      rw [← hpred]
      exact lt_length_links hhead (Nat.lt_of_lt_of_le hk hmax) lo
    have hlt' : k < (s.links pred).length := by rwa [hsame.length_links]
    have hold : s.link pred k = self.link pred k := by rw [hlink, if_neg (Nat.lt_irrefl k)]
    -- the new node takes over the link of its predecessor
    obtain ⟨s₁, hset₁, hsame₁, hlink₁⟩ := setForward_eq (p := some r) (i := k)
      (by rw [hsame.length_links]; exact hk) (self.link pred k)
    -- which gets a link to the new node
    obtain ⟨s₂, hset₂, hsame₂, hlink₂⟩ := setForward_eq (p := pred) (i := k)
      (by rw [hsame₁.length_links]; exact hlt') (some r)
    refine ⟨s₂, ?_, hsame.trans (hsame₁.trans hsame₂), fun p i => ?_⟩
    · rw [List.range_succ, List.foldlM_append, hrun]
      show (linkAt r update s k >>= pure) = _
      rw [bind_pure, linkAt, hupdate k hk, hpred]
      show (s.getForward pred k >>= _) = _
      rw [getForward_eq hlt', hold]
      show (s.setForward (some r) k _ >>= _) = _
      rw [hset₁]
      exact hset₂
    · rw [hlink₂, hlink₁, hlink]
      rcases Nat.lt_trichotomy i k with hi | hi | hi
      · rw [if_neg fun hand => hi.ne hand.2, if_neg fun hand => hi.ne hand.2, if_pos hi, if_pos (by omega)]
      · rw [hi, if_pos (Nat.lt_succ_self k), if_neg (Nat.lt_irrefl k), Threads.splice,
          if_pos (Nat.lt_of_succ_le hk), hpred]
        by_cases hp : p = some r
        · rw [hp, if_neg fun hand => hne hand.1.symm, if_pos ⟨rfl, rfl⟩, if_pos rfl]
        · simp only [if_neg hp, and_true]
      · rw [if_neg fun hand => hi.ne' hand.2, if_neg fun hand => hi.ne' hand.2, if_neg (by omega), if_neg (by omega)]

/-! ## Taking a node out -/

section Unlink

variable {update : List (Option Ref)} {pred next : Option Ref} {count lvl : ℕ}

theorem unlinkFrom_stop (hupdate : update[lvl]? = some pred) (hlink : self.getForward pred lvl = .ok next)
    (hne : next ≠ some r) : unlinkFrom r update (count + 1) lvl self = .ok self := by
  rw [unlinkFrom, hupdate]
  show (self.getForward pred lvl >>= _) = _
  rw [hlink]
  exact if_pos hne

theorem unlinkFrom_step (hupdate : update[lvl]? = some pred) (hlink : self.getForward pred lvl = .ok (some r))
    (hnext : self.getForward (some r) lvl = .ok next) {s : SkipListImpl K V maxLevel}
    (hset : self.setForward pred lvl next = .ok s) :
    unlinkFrom r update (count + 1) lvl self = unlinkFrom r update count (lvl + 1) s := by
  rw [unlinkFrom, hupdate]
  show (self.getForward pred lvl >>= _) = _
  rw [hlink]
  show (if some r ≠ some r then _ else self.getForward (some r) lvl >>= _) = _
  rw [if_neg (not_not_intro rfl), hnext]
  show (self.setForward pred lvl next >>= _) = _
  rw [hset]
  rfl

end Unlink

/-- The list shrinks to a level at which the head has a link, or to the lowest. -/
theorem shrink_eq {head : List (Option Ref)} {level : ℕ} (hpos : 0 < level) (hle : level ≤ head.length) :
    ∃ level', shrink head level = .ok level' ∧ 0 < level' ∧ level' ≤ level ∧
      ∀ i, level' ≤ i → i < level → head[i]?.join = none := by
  induction level with
  | zero => exact absurd hpos (Nat.lt_irrefl 0)
  | succ level ih =>
    cases level with
    | zero => exact ⟨1, rfl, Nat.one_pos, le_rfl, fun i h h' => absurd h (Nat.not_le.mpr h')⟩
    | succ level =>
      have hget : head[level + 1]? = some head[level + 1] := List.getElem?_eq_getElem hle
      rw [shrink, hget]
      cases hlink : head[level + 1] with
      | some r => exact ⟨level + 2, rfl, hpos, le_rfl, fun i h h' => absurd h (Nat.not_le.mpr h')⟩
      | none =>
        obtain ⟨level', hshrink, hpos', hle', hnone⟩ := ih (Nat.succ_pos level) (Nat.le_of_succ_le hle)
        refine ⟨level', hshrink, hpos', Nat.le_succ_of_le hle', fun i h h' => ?_⟩
        rcases Nat.lt_succ_iff_lt_or_eq.mp h' with h' | rfl
        · exact hnone i h h'
        · rw [hget, hlink]
          rfl

variable [LinearOrder K]

namespace Rep

/-! ## The level of a new node -/

/-- The list grows to the level that is drawn; `update` gets the head at the new levels. -/
theorem drawLevel_eq (h : Rep self row) (hrow : row = lo ++ hi) (zeros : ℕ) :
    ∃ lvl level, self.drawLevel (self.preds lo) zeros =
        .ok (lvl, self.withLevel level, (self.withLevel level).preds lo) ∧
      0 < lvl ∧ lvl ≤ level ∧ Rep (self.withLevel level) row := by
  obtain ⟨hpos, hmax⟩ := h.level
  have hgrow {level : ℕ} (hle : self.level ≤ level) (hle' : level ≤ maxLevel) :
      Rep (self.withLevel level) row :=
    { h with
      heights := fun r hr => ⟨(h.heights r hr).1, (h.heights r hr).2.trans hle⟩
      level := ⟨hpos.trans_le hle, hle'⟩ }
  unfold drawLevel
  by_cases hdrawn : zeros + 1 > self.level
  · rw [if_pos hdrawn]
    dsimp only
    generalize hlvl : (if zeros + 1 > maxLevel then maxLevel else zeros + 1) = lvl
    have hle : self.level ≤ lvl ∧ lvl ≤ maxLevel ∧ 0 < lvl := by
      rw [← hlvl]
      split_ifs <;> omega
    rw [if_pos hle.1]
    refine ⟨lvl, lvl, ?_, hle.2.2, le_rfl, hgrow hle.1 hle.2.1⟩
    obtain ⟨k, rfl⟩ := Nat.exists_eq_add_of_le hle.1
    -- no node is as high as the new levels
    have hnew : (List.range k).map (fun i => last? self.height (self.level + i) lo) = List.replicate k none := by
      rw [List.eq_replicate_iff]
      refine ⟨by simp, fun p hp => ?_⟩
      obtain ⟨i, -, rfl⟩ := List.mem_map.mp hp
      rw [← next?_eq_none_iff, next?_eq_none]
      intro r hr
      have hheight := (h.heights r (by rw [hrow]; exact List.mem_append_left _ hr)).2
      omega
    have hpreds : (self.withLevel (self.level + k)).preds lo = self.preds lo ++ List.replicate k none := by
      show (List.range (self.level + k)).map (fun i => last? self.height i lo) = _
      rw [List.range_add, List.map_append, List.map_map]
      exact congrArg (_ ++ ·) hnew
    rw [hpreds, Nat.add_sub_cancel_left]
    rfl
  · rw [if_neg hdrawn]
    exact ⟨zeros + 1, self.level, rfl, Nat.succ_pos zeros, Nat.not_lt.mp hdrawn, h⟩

end Rep

/-- The entries with one more, or with another one in place of it. -/
def Puts (s s' : SkipListImpl K V maxLevel) (r : Ref) (key : K) (val : V) : Prop :=
  ∀ r', s'.entry r' = if r' = r then some (key, val) else s.entry r'

namespace Rep

/-- A key between the two parts of the row keeps the keys ascending. -/
theorem ascending_insert {s : SkipListImpl K V maxLevel} (h : Rep self (lo ++ hi)) (hlo : ∀ r ∈ lo, self.KeyLt key r)
    (hhi : ∀ r ∈ hi, ∀ e ∈ self.entry r, key < e.1) (hr : s.entry r = some (key, val))
    (hother : ∀ r' ∈ lo ++ hi, s.entry r' = self.entry r') :
    (lo ++ r :: hi).Pairwise fun r r' => ∀ e ∈ s.entry r, ∀ e' ∈ s.entry r', e.1 < e'.1 := by
  have hold : (lo ++ hi).Pairwise fun r r' => ∀ e ∈ s.entry r, ∀ e' ∈ s.entry r', e.1 < e'.1 :=
    h.ascending.imp_of_mem fun ha hb hab => by rwa [hother _ ha, hother _ hb]
  obtain ⟨hlow, hhigh, hcross⟩ := List.pairwise_append.mp hold
  have hkey : ∀ e ∈ s.entry r, e.1 = key := key_of_entry hr
  refine List.pairwise_append.mpr
    ⟨hlow, List.pairwise_cons.mpr ⟨fun b hb e he e' he' => ?_, hhigh⟩, fun a ha b hb => ?_⟩
  · rw [hkey e he]
    rw [hother b (List.mem_append_right _ hb)] at he'
    exact hhi b hb e' he'
  · rcases List.mem_cons.mp hb with rfl | hb
    · intro e he e' he'
      rw [hkey e' he']
      rw [hother a (List.mem_append_left _ ha)] at he
      exact hlo a ha e he
    · exact hcross a ha b hb

/-- A node without links leaves the others as they are. -/
theorem putNode_new (h : Rep self row) (hr : r ∉ self.nodes.keys) (key : K) (val : V) (lvl : ℕ) :
    (self.putNode r ⟨key, val, List.replicate lvl none⟩).height r = lvl ∧
      (∀ r' ∈ row, (self.putNode r ⟨key, val, List.replicate lvl none⟩).height r' = self.height r') ∧
      Threads (self.putNode r ⟨key, val, List.replicate lvl none⟩).height maxLevel
        (self.putNode r ⟨key, val, List.replicate lvl none⟩).link row := by
  have hnew : ∀ r' ∈ row, r' ≠ r := fun r' hr' heq => hr ((h.keys r).mpr (heq ▸ hr'))
  have hother : ∀ r' ∈ row, (self.putNode r ⟨key, val, List.replicate lvl none⟩).height r' = self.height r' :=
    fun r' hr' => by
      unfold height
      rw [links_putNode, if_neg fun heq => hnew r' hr' (Option.some.inj heq)]
  refine ⟨?_, hother, h.threads.congr hother fun p hp i _ => ?_⟩
  · unfold height
    rw [links_putNode, if_pos rfl, List.length_replicate]
  · have hp' : p ≠ some r := fun heq => hnew r (hp r heq) rfl
    unfold link
    rw [links_putNode, if_neg hp']

/-- The loop links it in at every level that it has. -/
theorem linked (h : Rep self (lo ++ hi)) (hr : r ∉ self.nodes.keys) (key : K) (val : V) {lvl : ℕ}
    (hle : lvl ≤ self.level) :
    ∃ s, (List.range lvl).foldlM (linkAt r (self.preds lo)) (self.putNode r ⟨key, val, List.replicate lvl none⟩) =
        .ok s ∧ SameNodes (self.putNode r ⟨key, val, List.replicate lvl none⟩) s ∧
      Threads s.height maxLevel s.link (lo ++ r :: hi) ∧ s.height r = lvl ∧
      ∀ r' ∈ lo ++ hi, s.height r' = self.height r' := by
  obtain ⟨hself, hother, hthreads⟩ := h.putNode_new hr key val lvl
  have hhead : (self.putNode r ⟨key, val, List.replicate lvl none⟩).head.length = maxLevel := h.head
  generalize self.putNode r ⟨key, val, List.replicate lvl none⟩ = s₁ at hself hother hthreads hhead
  have hnew : r ∉ lo ++ hi := fun hmem => hr ((h.keys r).mpr hmem)
  have hupdate : ∀ i < s₁.height r, (self.preds lo)[i]? = some (last? s₁.height i lo) := fun i hi' => by
    rw [hself] at hi'
    have hchain : chain s₁.height i lo = chain self.height i lo :=
      chain_congr fun r' hr' => hother r' (List.mem_append_left _ hr')
    rw [preds_getElem? (hi'.trans_le hle), last?, last?, hchain]
  have hmax : s₁.height r ≤ maxLevel := by
    rw [hself]
    exact hle.trans h.level.2
  obtain ⟨s, hrun, hsame, hlink⟩ :=
    linkAt_foldlM hhead hmax hupdate (fun hmem => hnew (List.mem_append_left _ hmem)) le_rfl
  rw [hself] at hrun
  refine ⟨s, hrun, hsame, ?_, by rw [hsame.height, hself], fun r' hr' => by rw [hsame.height, hother r' hr']⟩
  rw [hsame.height, Threads.eq_splice le_rfl hlink]
  refine hthreads.splice_threads ?_
  rw [List.nodup_middle, List.nodup_cons]
  exact ⟨hnew, h.nodup⟩

/-- **A new node** is linked in at the place of its key. -/
theorem linkNode_eq (h : Rep self (lo ++ hi)) (hlo : ∀ r ∈ lo, self.KeyLt key r)
    (hhi : ∀ r ∈ hi, ∀ e ∈ self.entry r, key < e.1) (hr : r ∉ self.nodes.keys) {lvl : ℕ} (hpos : 0 < lvl)
    (hle : lvl ≤ self.level) (val : V) :
    ∃ s, self.linkNode r key val lvl (self.preds lo) = .ok s ∧ Rep s (lo ++ r :: hi) ∧ Puts self s r key val := by
  obtain ⟨s, hrun, hsame, hthreads, hself, hother⟩ := h.linked hr key val hle
  have hnew : ∀ r' ∈ lo ++ hi, r' ≠ r := fun r' hr' heq => hr ((h.keys r).mpr (heq ▸ hr'))
  have hentry : Puts self s r key val := fun r' => by rw [hsame.entry, entry_putNode]
  have hmem : ∀ r' ∈ lo ++ hi, s.entry r' = self.entry r' := fun r' hr' => by
    rw [hentry, if_neg (hnew r' hr')]
  have hlevel : s.level = self.level := hsame.level
  refine ⟨{ s with lastInserted := some r }, ?_, ?_, hentry⟩
  · unfold linkNode
    rw [hrun]
    rfl
  · refine ⟨hthreads, ?_, fun r' => ?_, fun r' hr' => ?_, ?_, hsame.head.trans h.head, ?_, fun r' hr' => ?_⟩
    · rw [List.nodup_middle, List.nodup_cons]
      exact ⟨fun hmem => hnew r hmem rfl, h.nodup⟩
    · show r' ∈ s.nodes.keys ↔ _
      rw [hsame.keys, mem_keys_putNode, h.keys]
      simp only [List.mem_append, List.mem_cons]
      tauto
    · show 0 < s.height r' ∧ s.height r' ≤ s.level
      rw [hlevel]
      by_cases heq : r' = r
      · rw [heq, hself]
        exact ⟨hpos, hle⟩
      · have hold : r' ∈ lo ++ hi := by
          simp only [List.mem_append, List.mem_cons] at hr' ⊢
          tauto
        rw [hother r' hold]
        exact h.heights r' hold
    · show 0 < s.level ∧ s.level ≤ maxLevel
      rw [hlevel]
      exact h.level
    · exact h.ascending_insert hlo hhi ((hentry r).trans (if_pos rfl)) hmem
    · obtain rfl := Option.some.inj hr'
      simp

/-- **A value that is overwritten** leaves the row as it is. -/
theorem overwrite (h : Rep self row) {n : Node K V} (hn : self.nodes.lookup r = some n) (val : V) :
    Rep (self.putNode r { n with value := val }) row := by
  have hlinks : (self.putNode r { n with value := val }).links = self.links := by
    funext p
    rw [links_putNode]
    by_cases hp : p = some r
    · rw [if_pos hp, hp, links_some hn]
    · rw [if_neg hp]
  have hheight : (self.putNode r { n with value := val }).height = self.height := by
    unfold height
    rw [hlinks]
  have hlink : (self.putNode r { n with value := val }).link = self.link := by
    unfold link
    rw [hlinks]
  have hold : self.entry r = some (n.key, n.value) := congrArg (Option.map _) hn
  have hkeys : ∀ r' e, e ∈ (self.putNode r { n with value := val }).entry r' → ∃ e' ∈ self.entry r', e'.1 = e.1 := by
    intro r' e he
    rw [entry_putNode] at he
    by_cases hr : r' = r
    · rw [if_pos hr] at he
      obtain rfl := Option.some.inj he
      exact ⟨(n.key, n.value), by rw [hr, hold]; rfl, rfl⟩
    · rw [if_neg hr] at he
      exact ⟨e, he, rfl⟩
  refine { h with threads := ?_, keys := fun r' => ?_, heights := ?_, ascending := h.ascending.imp ?_ }
  · rw [hheight, hlink]
    exact h.threads
  · rw [mem_keys_putNode, h.keys]
    refine ⟨fun hor => hor.elim (fun heq => ?_) id, Or.inr⟩
    rw [heq]
    exact (h.keys r).mp (Finmap.mem_keys.mpr (Finmap.mem_iff.mpr ⟨n, hn⟩))
  · rw [hheight]
    exact h.heights
  · intro a b hab e he e' he'
    obtain ⟨k, hk, heq⟩ := hkeys a e he
    obtain ⟨k', hk', heq'⟩ := hkeys b e' he'
    rw [← heq, ← heq']
    exact hab k hk k' hk'

/-- From any level on, the loop takes the node out of the levels that it has. -/
theorem unlinkFrom_eq (h : Rep self (lo ++ r :: hi)) {count lvl : ℕ} (hcount : lvl + count = self.level)
    (hlvl : lvl ≤ self.height r) {s : SkipListImpl K V maxLevel} (hsame : SameNodes self s)
    (hlink : ∀ p i, s.link p i = if i < lvl then Threads.unlink self.height self.link lo r p i else self.link p i) :
    ∃ s', unlinkFrom r (self.preds lo) count lvl s = .ok s' ∧ SameNodes self s' ∧
      s'.link = Threads.unlink self.height self.link lo r := by
  have hheight := (h.heights r (by simp)).2
  induction count generalizing lvl s with
  | zero => exact ⟨s, rfl, hsame, Threads.eq_unlink (by omega) hlink⟩
  | succ count ih =>
    generalize hpred : last? self.height lvl lo = pred
    have hupdate : (self.preds lo)[lvl]? = some pred := by rw [preds_getElem? (by omega), hpred]
    have hmax : lvl < maxLevel := by
      have hle := h.level.2
      omega
    have hlt : lvl < (s.links pred).length := by
      rw [hsame.length_links, ← hpred]
      exact lt_length_links h.head hmax lo
    have hget : s.getForward pred lvl = .ok (next? self.height lvl (r :: hi)) := by
      rw [getForward_eq hlt, hlink, if_neg (Nat.lt_irrefl lvl), ← hpred]
      exact congrArg _ (h.threads lvl hmax lo (r :: hi) rfl)
    rcases Nat.lt_or_eq_of_le hlvl with hlvl | hlvl
    · rw [next?_cons_of_lt hlvl] at hget
      have hself : lvl < (s.links (some r)).length := by rwa [hsame.length_links]
      have hnext : s.getForward (some r) lvl = .ok (self.link (some r) lvl) := by
        rw [getForward_eq hself, hlink, if_neg (Nat.lt_irrefl lvl)]
      obtain ⟨s₁, hset, hsame₁, hlink₁⟩ := setForward_eq (p := pred) hlt (self.link (some r) lvl)
      rw [unlinkFrom_step hupdate hget hnext hset]
      refine ih (by omega) hlvl (hsame.trans hsame₁) fun p i => ?_
      rw [hlink₁, hlink]
      rcases Nat.lt_trichotomy i lvl with hi' | hi' | hi'
      · rw [if_neg fun hand => hi'.ne hand.2, if_pos hi', if_pos (by omega)]
      · rw [hi', if_neg (Nat.lt_irrefl lvl), if_pos (Nat.lt_succ_self lvl), Threads.unlink, hpred]
        exact if_congr ⟨fun hand => ⟨hlvl, hand.1⟩, fun hand => ⟨hand.2, rfl⟩⟩ rfl rfl
      · rw [if_neg fun hand => hi'.ne' hand.2, if_neg (by omega), if_neg (by omega)]
    · -- above its height, the node is not the one behind its place
      rw [next?_cons_of_le hlvl.ge] at hget
      have hother : next? self.height lvl hi ≠ some r := fun heq =>
        (List.nodup_cons.mp (List.nodup_append.mp h.nodup).2.1).1 (mem_of_next? heq).1
      exact ⟨s, unlinkFrom_stop hupdate hget hother, hsame, Threads.eq_unlink hlvl.ge hlink⟩

/-- Without the node, the list shrinks to its highest node. -/
theorem unlinked (h : Rep self (lo ++ r :: hi)) :
    ∃ s level, unlinkFrom r (self.preds lo) self.level 0 self = .ok s ∧ shrink s.head s.level = .ok level ∧
      SameNodes self s ∧ Threads s.height maxLevel s.link (lo ++ hi) ∧ (0 < level ∧ level ≤ maxLevel) ∧
      ∀ r' ∈ lo ++ hi, s.height r' ≤ level := by
  obtain ⟨s, hrun, hsame, hlink⟩ := h.unlinkFrom_eq (Nat.zero_add _) (Nat.zero_le _) (.refl self)
    fun p i => (if_neg (Nat.not_lt_zero i)).symm
  have hthreads : Threads s.height maxLevel s.link (lo ++ hi) := by
    rw [hsame.height, hlink]
    exact h.threads.unlink_threads h.nodup
  have hlevel : 0 < s.level ∧ s.level ≤ maxLevel := by
    rw [hsame.level]
    exact h.level
  have hhead : s.level ≤ s.head.length := by
    rw [hsame.head, h.head]
    exact hlevel.2
  obtain ⟨level, hshrink, hpos, hle, hnone⟩ := shrink_eq hlevel.1 hhead
  refine ⟨s, level, hrun, hshrink, hsame, hthreads, ⟨hpos, hle.trans hlevel.2⟩, fun r' hr' => ?_⟩
  rcases hle.eq_or_lt with heq | hlt
  · have hold : r' ∈ lo ++ r :: hi := ((List.sublist_cons_self r hi).append_left lo).subset hr'
    rw [heq, hsame.height, hsame.level]
    exact (h.heights r' hold).2
  · -- the head has no link at the first level without a node
    exact hthreads.height_le_of_head (hlt.trans_le hlevel.2) (hnone level le_rfl hlt) r' hr'

/-- **A node is deleted** from its place in the row. -/
theorem deleteNode_eq (h : Rep self (lo ++ r :: hi)) :
    ∃ s, self.deleteNode r (self.preds lo) = .ok s ∧ Rep s (lo ++ hi) ∧
      ∀ r', s.entry r' = if r' = r then none else self.entry r' := by
  have hsub : (lo ++ hi).Sublist (lo ++ r :: hi) := (List.sublist_cons_self r hi).append_left lo
  have hother : ∀ r' ∈ lo ++ hi, r' ≠ r := fun r' hr' heq =>
    (List.nodup_cons.mp (List.nodup_middle.mp h.nodup)).1 (heq ▸ hr')
  have hmem : ∀ r', r' ∈ lo ++ hi ↔ r' ≠ r ∧ r' ∈ lo ++ r :: hi := fun r' => by
    refine ⟨fun hr' => ⟨hother r' hr', hsub.subset hr'⟩, fun hand => ?_⟩
    have hold := hand.2
    simp only [List.mem_append, List.mem_cons] at hold ⊢
    tauto
  obtain ⟨s, level, hrun, hshrink, hsame, hthreads, hlevel, hheights⟩ := h.unlinked
  generalize hlast : (if s.lastInserted = some r then none else s.lastInserted) = last
  have hentry : ∀ r', (s.eraseNode r).entry r' = if r' = r then none else self.entry r' := fun r' => by
    rw [entry_eraseNode, hsame.entry]
  have hheight : ∀ r' ∈ lo ++ hi, (s.eraseNode r).height r' = s.height r' := fun r' hr' => by
    unfold height
    rw [links_eraseNode fun heq => hother r' hr' (Option.some.inj heq)]
  refine ⟨{ s.eraseNode r with level := level, lastInserted := last }, ?_, ?_, hentry⟩
  · unfold deleteNode
    rw [hrun]
    show (shrink s.head s.level >>= _) = _
    rw [hshrink, ← hlast]
    rfl
  · refine ⟨hthreads.congr hheight fun p hp i _ => ?_, h.nodup.sublist hsub, fun r' => ?_, fun r' hr' => ?_, hlevel,
      hsame.head.trans h.head, ?_, fun r' hr' => ?_⟩
    · show ((s.eraseNode r).links p)[i]?.join = _
      rw [links_eraseNode fun heq => hother r (hp r heq) rfl]
      rfl
    · rw [hmem, ← h.keys, ← hsame.keys]
      simp [eraseNode, Finmap.mem_keys]
    · show 0 < (s.eraseNode r).height r' ∧ (s.eraseNode r).height r' ≤ level
      rw [hheight r' hr']
      refine ⟨?_, hheights r' hr'⟩
      rw [hsame.height]
      exact (h.heights r' (hsub.subset hr')).1
    · refine (h.ascending.sublist hsub).imp_of_mem fun {a b} ha hb hab => ?_
      show ∀ e ∈ (s.eraseNode r).entry a, ∀ e' ∈ (s.eraseNode r).entry b, e.1 < e'.1
      rwa [hentry, hentry, if_neg (hother _ ha), if_neg (hother _ hb)]
    · rw [← hlast] at hr'
      by_cases hdeleted : s.lastInserted = some r
      · rw [if_pos hdeleted] at hr'
        cases hr'
      · rw [if_neg hdeleted] at hr'
        refine (hmem r').mpr ⟨fun heq => hdeleted (heq ▸ hr'), h.last r' ?_⟩
        rw [← hsame.lastInserted]
        exact hr'

end Rep

end SkipListImpl

end Slung
