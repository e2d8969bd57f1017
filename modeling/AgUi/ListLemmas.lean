import Mathlib.Data.List.DropRight
import Mathlib.Data.List.Nodup

/-!
# Facts about lists

General lemmas the model's proofs share: folds that keep an invariant (`foldl_induction`,
`foldl_congr_of_invariant`), a strict inequality of counts (`countP_lt_countP`), reading a list from a
position up (`take_succ_reverse`, `getD_append_cons`), the pieces of `splitOnP`, `intersperse` and
the `flatMap` of a sublist, the occurrences of an element that trimming keeps (`count_dropWhile` and
the lemmas after it), and `mapM` in `Except`.
-/

namespace AgUi

variable {α β : Type}

/-! ### Folds -/

theorem foldl_induction (P : β → Prop) {f : β → α → β} {l : List α} {b : β} (hb : P b)
    (hf : ∀ b, P b → ∀ a ∈ l, P (f b a)) : P (l.foldl f b) := by
  induction l generalizing b with
  | nil => exact hb
  | cons a l ih =>
    exact ih (hf b hb a (List.mem_cons_self _ _)) fun b hb a ha => hf b hb a (List.mem_cons_of_mem _ ha)

theorem foldl_congr_of_invariant (Q : β → Prop) {f g : β → α → β} :
    ∀ {l : List α} {b : β}, Q b → (∀ b a, a ∈ l → Q b → f b a = g b a) → (∀ b a, a ∈ l → Q b → Q (f b a)) →
      l.foldl f b = l.foldl g b
  | [], _, _, _, _ => rfl
  | a :: l, b, hb, hfg, hQ => by
    rw [List.foldl_cons, List.foldl_cons, ← hfg b a (List.mem_cons_self _ _) hb]
    exact foldl_congr_of_invariant Q (hQ b a (List.mem_cons_self _ _) hb)
      (fun b a ha => hfg b a (List.mem_cons_of_mem _ ha)) fun b a ha => hQ b a (List.mem_cons_of_mem _ ha)

/-! ### Counting and bounds -/

theorem countP_lt_countP {p q : α → Bool} :
    ∀ {l : List α}, (∀ x ∈ l, q x → p x) → ∀ {a : α}, a ∈ l → p a → q a = false → l.countP q < l.countP p
  | [], _, _, ha, _, _ => absurd ha (List.not_mem_nil _)
  | x :: l, hqp, a, ha, hpa, hqa => by
    have hmono : l.countP q ≤ l.countP p := List.countP_mono_left fun y hy => hqp y (List.mem_cons_of_mem _ hy)
    rw [List.countP_cons, List.countP_cons]
    rcases List.mem_cons.1 ha with rfl | ha
    · rw [if_pos hpa, if_neg (by simp [hqa])]
      omega
    · have := countP_lt_countP (fun y hy => hqp y (List.mem_cons_of_mem _ hy)) ha hpa hqa
      have hx := hqp x (List.mem_cons_self _ _)
      by_cases hq : q x <;> simp [hq, hx] <;> omega

theorem le_foldr_max {n : Nat} {l : List Nat} (h : n ∈ l) : n ≤ l.foldr max 0 := by
  induction l with
  | nil => cases h
  | cons a l ih =>
    rcases List.mem_cons.1 h with rfl | h
    · exact le_max_left _ _
    · exact (ih h).trans (le_max_right _ _)

/-! ### Positions -/

theorem take_succ_reverse {l : List α} {n : Nat} (h : n < l.length) :
    (l.take (n + 1)).reverse = l[n] :: (l.take n).reverse := by
  rw [List.take_succ, List.getElem?_eq_getElem h]
  simp

theorem getD_append_cons (l₁ l₂ : List α) (a d : α) : (l₁ ++ a :: l₂).getD l₁.length d = a := by
  rw [List.getD_eq_getElem?_getD, List.getElem?_append_right (Nat.le_refl _), Nat.sub_self]
  simp

theorem takeWhile_eq_nil_of_head? {p : α → Bool} {l : List α} (h : ∀ x ∈ l.head?, p x = false) :
    l.takeWhile p = [] := by
  cases l with
  | nil => rfl
  | cons x l => simp [List.takeWhile_cons, h x rfl]

/-! ### Pieces -/

theorem mem_intersperse_of_mem {sep a : α} : ∀ {l : List α}, a ∈ l.intersperse sep → a = sep ∨ a ∈ l
  | [], h => by cases h
  | [_], h => .inr h
  | x :: y :: l, h => by
    rw [List.intersperse_cons₂, List.mem_cons, List.mem_cons] at h
    rcases h with rfl | rfl | h
    · exact .inr (List.mem_cons_self _ _)
    · exact .inl rfl
    · exact (mem_intersperse_of_mem h).imp_right (List.mem_cons_of_mem _)

theorem sublist_flatMap (f : α → List β) {l₁ l₂ : List α} (h : List.Sublist l₁ l₂) :
    List.Sublist (l₁.flatMap f) (l₂.flatMap f) := by
  induction h with
  | slnil => exact .slnil
  | cons a _ ih => exact ih.trans (List.sublist_append_right _ _)
  | cons₂ a _ ih => exact ih.append_left _

theorem mem_of_mem_splitOnP {p : α → Bool} {xs l : List α} {x : α}
    (hl : l ∈ xs.splitOnP p) (hx : x ∈ l) : x ∈ xs ∧ p x = false := by
  induction xs generalizing l with
  | nil => simp_all
  | cons a xs ih =>
    rw [List.splitOnP_cons] at hl
    split_ifs at hl with ha
    · rcases List.mem_cons.1 hl with rfl | hl
      · simp at hx
      · exact (ih hl hx).imp_left (List.mem_cons_of_mem a)
    · obtain ⟨l₀, ls, hls⟩ := List.exists_cons_of_ne_nil (List.splitOnP_ne_nil p xs)
      rw [hls] at hl ih
      rcases List.mem_cons.1 hl with rfl | hl
      · rcases List.mem_cons.1 hx with rfl | hx
        · exact ⟨List.mem_cons_self _ _, by simpa using ha⟩
        · exact (ih (List.mem_cons_self _ _) hx).imp_left (List.mem_cons_of_mem a)
      · exact (ih (List.mem_cons_of_mem _ hl) hx).imp_left (List.mem_cons_of_mem a)

theorem perm_append_filter_not_mem [BEq α] [LawfulBEq α] {keys all : List α} (hsub : ∀ k ∈ keys, k ∈ all)
    (hkeys : keys.Nodup) (hall : all.Nodup) : (keys ++ all.filter (· ∉ keys)).Perm all := by
  refine (List.perm_ext_iff_of_nodup ?_ hall).2 fun x => ?_
  · refine List.nodup_append.2 ⟨hkeys, hall.filter _, fun x hx hx' => ?_⟩
    simp only [List.mem_filter, decide_eq_true_eq] at hx'
    exact hx'.2 hx
  · by_cases hx : x ∈ keys <;> simp [hx, hsub x]

/-! ### What trimming keeps of an element -/

section Count

variable [BEq α] [LawfulBEq α] {a : α}

theorem count_drop_of_not_mem_take {l : List α} {n : Nat} (h : a ∉ l.take n) : (l.drop n).count a = l.count a := by
  conv_rhs => rw [← List.take_append_drop n l]
  rw [List.count_append, List.count_eq_zero_of_not_mem h, Nat.zero_add]

theorem count_dropWhile {p : α → Bool} (ha : p a = false) (l : List α) : (l.dropWhile p).count a = l.count a := by
  conv_rhs => rw [← List.takeWhile_append_dropWhile p l]
  rw [List.count_append, List.count_eq_zero_of_not_mem fun h => absurd (List.mem_takeWhile_imp h) (by simp [ha]),
    Nat.zero_add]

theorem count_rdropWhile {p : α → Bool} (ha : p a = false) (l : List α) : (l.rdropWhile p).count a = l.count a := by
  rw [List.rdropWhile, List.count_reverse, count_dropWhile ha, List.count_reverse]

theorem count_dropLast_of_getLast? {b : α} {l : List α} (hb : l.getLast? = some b) (hab : b ≠ a) :
    l.dropLast.count a = l.count a := by
  conv_rhs => rw [← List.dropLast_append_getLast? b hb]
  simp [List.count_singleton, hab]

theorem count_intercalate {sep : List α} (ha : a ∉ sep) :
    ∀ ls : List (List α), (sep.intercalate ls).count a = ls.flatten.count a
  | [] => rfl
  | [l] => by simp [List.intercalate]
  | l :: l' :: ls => by
    have h : sep.intercalate (l :: l' :: ls) = l ++ (sep ++ sep.intercalate (l' :: ls)) := by
      simp [List.intercalate, List.intersperse_cons₂]
    rw [h, List.count_append, List.count_append, List.count_eq_zero_of_not_mem ha, count_intercalate ha (l' :: ls)]
    simp

/-- Filtering out lists that do not hold `a` keeps every occurrence of `a`. -/
theorem count_flatten_filter {q : List α → Bool} {ls : List (List α)} (h : ∀ l ∈ ls, q l = false → a ∉ l) :
    (ls.filter q).flatten.count a = ls.flatten.count a := by
  induction ls with
  | nil => rfl
  | cons l ls ih =>
    have ih := ih fun l' hl' => h l' (List.mem_cons_of_mem _ hl')
    by_cases hq : q l
    · simp [List.filter_cons_of_pos hq, ih]
    · simp [List.filter_cons_of_neg hq, ih,
        List.count_eq_zero_of_not_mem (h l (List.mem_cons_self _ _) (by simpa using hq))]

end Count

/-! ### `mapM` in `Except` -/

section MapM

variable {ε : Type} {f : α → Except ε β}

theorem bind_eq_ok {γ : Type} {x : Except ε γ} {g : γ → Except ε β} {b : β} :
    x >>= g = .ok b ↔ ∃ a, x = .ok a ∧ g a = .ok b := by
  cases x <;> simp [bind, Except.bind]

theorem bind_eq_error {γ : Type} {x : Except ε γ} {g : γ → Except ε β} {e : ε} :
    x >>= g = .error e ↔ x = .error e ∨ ∃ a, x = .ok a ∧ g a = .error e := by
  cases x <;> simp [bind, Except.bind]

theorem mapM_eq_ok_map {g : α → β} : ∀ {xs : List α}, (∀ x ∈ xs, f x = .ok (g x)) → xs.mapM f = .ok (xs.map g)
  | [], _ => rfl
  | x :: xs, h => by
    rw [List.mapM_cons, h x (List.mem_cons_self _ _),
      mapM_eq_ok_map fun y hy => h y (List.mem_cons_of_mem _ hy)]
    rfl

theorem mapM_map_eq_ok {k : β → α} : ∀ {ys : List β}, (∀ y ∈ ys, f (k y) = .ok y) → (ys.map k).mapM f = .ok ys
  | [], _ => rfl
  | y :: ys, h => by
    rw [List.map_cons, List.mapM_cons, h y (List.mem_cons_self _ _),
      mapM_map_eq_ok fun z hz => h z (List.mem_cons_of_mem _ hz)]
    rfl

theorem mapM_eq_ok_self {g : α → Except ε α} {xs : List α} (h : ∀ x ∈ xs, g x = .ok x) : xs.mapM g = .ok xs := by
  simpa using mapM_map_eq_ok (k := id) h

theorem forall_of_mapM_eq_ok {P : β → Prop} (hP : ∀ x y, f x = .ok y → P y) :
    ∀ {xs : List α} {ys : List β}, xs.mapM f = .ok ys → ∀ y ∈ ys, P y
  | [], ys, h => by cases h; simp
  | x :: xs, ys, h => by
    rw [List.mapM_cons] at h
    cases hx : f x with
    | error e => rw [hx] at h; cases h
    | ok y =>
      cases hxs : xs.mapM f with
      | error e => rw [hx, hxs] at h; cases h
      | ok ys' =>
        rw [hx, hxs] at h
        cases h
        intro z hz
        rcases List.mem_cons.1 hz with rfl | hz
        · exact hP x z hx
        · exact forall_of_mapM_eq_ok hP hxs z hz

theorem exists_of_mapM_eq_error {e : ε} : ∀ {xs : List α}, xs.mapM f = .error e → ∃ x ∈ xs, f x = .error e
  | [], h => by cases h
  | x :: xs, h => by
    rw [List.mapM_cons] at h
    cases hx : f x with
    | error e' => rw [hx] at h; cases h; exact ⟨x, List.mem_cons_self _ _, hx⟩
    | ok y =>
      cases hxs : xs.mapM f with
      | error e' =>
        rw [hx, hxs] at h
        cases h
        obtain ⟨z, hz, hfz⟩ := exists_of_mapM_eq_error hxs
        exact ⟨z, List.mem_cons_of_mem _ hz, hfz⟩
      | ok ys' => rw [hx, hxs] at h; cases h

end MapM

end AgUi
