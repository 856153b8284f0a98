import Mathlib.Logic.Function.Basic

/-!
# A store and the requests made to it

`Op α β` is a request to a store with addresses `α` and data `β`, `after m l` the contents that
the requests `l` leave of `m`.

* `lastWrite l a`   the data of the last write to `a` in `l`;
* `after_apply`     **read over write**: the contents at `a` are `lastWrite l a`, or the initial
                    contents if there is none;
* `lastWrite_eq_some`  what `lastWrite` means, with the requests around the write;
* `Filling.exists_load`  a loop that fills one cell after the other;
* `fillWithin_eq`  a loop that converts what it stores, into a buffer with an end.
-/

namespace Store
section
variable {α β : Type*} [DecidableEq α]

inductive Op (α β : Type*) where
  | rd (a : α)
  | wr (a : α) (v : β)

def apply (m : α → β) : Op α β → α → β
  | .rd _ => m
  | .wr a v => Function.update m a v

def after (m : α → β) (l : List (Op α β)) : α → β := l.foldl apply m

def Op.Writes (a : α) : Op α β → Prop
  | .rd _ => False
  | .wr b _ => b = a

def lastWrite (a : α) : List (Op α β) → Option β
  | [] => none
  | .rd _ :: l => lastWrite a l
  | .wr b v :: l => (lastWrite a l).or (if b = a then some v else none)

theorem after_append (m : α → β) (l l' : List (Op α β)) :
    after m (l ++ l') = after (after m l) l' := List.foldl_append

theorem after_apply (m : α → β) (l : List (Op α β)) (a : α) :
    after m l a = (lastWrite a l).getD (m a) := by
  induction l generalizing m with
  | nil => rfl
  | cons q l ih =>
    show after (apply m q) l a = _
    rw [ih]
    cases q with
    | rd b => rfl
    | wr b v =>
      show (lastWrite a l).getD (Function.update m b v a)
        = ((lastWrite a l).or (if b = a then some v else none)).getD (m a)
      cases lastWrite a l with
      | some w => rfl
      | none =>
        by_cases h : b = a
        · subst h
          simp
        · rw [Function.update_of_ne (fun e => h e.symm), if_neg h]
          rfl

theorem apply_of_not_writes (m : α → β) (q : Op α β) {a : α} (h : ¬ q.Writes a) :
    apply m q a = m a := by
  cases q with
  | rd b => rfl
  | wr b v => exact Function.update_of_ne (fun e => h e.symm) v m

theorem lastWrite_eq_none {a : α} {l : List (Op α β)} :
    lastWrite a l = none ↔ ∀ q ∈ l, ¬ q.Writes a := by
  induction l with
  | nil => simp [lastWrite]
  | cons q l ih =>
    rw [List.forall_mem_cons, ← ih]
    cases q with
    | rd b => simp [lastWrite, Op.Writes]
    | wr b v => simp [lastWrite, Op.Writes, and_comm]

theorem lastWrite_eq_some {a : α} {v : β} {l : List (Op α β)} :
    lastWrite a l = some v ↔
      ∃ pre mid, l = pre ++ .wr a v :: mid ∧ ∀ q ∈ mid, ¬ q.Writes a := by
  induction l with
  | nil => simp [lastWrite]
  | cons q l ih =>
    refine ⟨fun h => ?_, fun h => ?_⟩
    · cases hl : lastWrite a l with
      | some w =>
        have hw : lastWrite a l = some v := by
          cases q with
          | rd b => exact h
          | wr b u =>
            rw [lastWrite, hl] at h
            rw [hl]
            exact h
        obtain ⟨pre, mid, rfl, hmid⟩ := ih.mp hw
        exact ⟨q :: pre, mid, rfl, hmid⟩
      | none =>
        cases q with
        | rd b => exact absurd (h.symm.trans hl) (by simp)
        | wr b u =>
          rw [lastWrite, hl, Option.none_or] at h
          by_cases e : b = a
          · rw [if_pos e, Option.some.injEq] at h
            subst e h
            exact ⟨[], l, rfl, lastWrite_eq_none.mp hl⟩
          · rw [if_neg e] at h
            exact absurd h (by simp)
    · obtain ⟨pre, mid, e, hmid⟩ := h
      cases pre with
      | nil =>
        obtain ⟨rfl, rfl⟩ := List.cons.inj e
        rw [lastWrite, lastWrite_eq_none.mpr hmid, if_pos rfl]
        rfl
      | cons q' pre =>
        obtain ⟨rfl, rfl⟩ := List.cons.inj e
        have hw := ih.mpr ⟨pre, mid, rfl, hmid⟩
        cases q with
        | rd b => exact hw
        | wr b u =>
          rw [lastWrite, hw]
          rfl

end

/-! ## filling one cell after the other -/

section
variable {σ γ δ R : Type*} {load : σ → Nat → List γ → R} {ok : σ → R} {put : σ → Nat → γ → σ}
  {cell : σ → Nat → δ} {val : γ → δ} {n : Nat}

/-- the loop `load` puts each element into the next of `n` cells -/
structure Filling (load : σ → Nat → List γ → R) (ok : σ → R) (put : σ → Nat → γ → σ)
    (cell : σ → Nat → δ) (val : γ → δ) (n : Nat) : Prop where
  nil : ∀ s i, load s i [] = ok s
  cons : ∀ s i x xs, i < n → load s i (x :: xs) = load (put s i x) (i + 1) xs
  written : ∀ s i x, i < n → cell (put s i x) i = val x
  frame : ∀ s i x, i < n → ∀ j < i, cell (put s i x) j = cell s j

/-- the loop ends, keeps the cells before the first, and each element is in its cell -/
theorem Filling.exists_load (h : Filling load ok put cell val n) (xs : List γ) :
    ∀ i s, i + xs.length ≤ n → ∃ t, load s i xs = ok t ∧ (∀ j < i, cell t j = cell s j) ∧
      ∀ k x, xs[k]? = some x → cell t (i + k) = val x := by
  induction xs with
  | nil => exact fun i s _ => ⟨s, h.nil s i, fun _ _ => rfl, fun k x hk => absurd hk (by simp)⟩
  | cons x xs ih =>
    intro i s hle
    rw [List.length_cons] at hle
    have hi : i < n := by omega
    obtain ⟨t, ht, hbefore, hval⟩ := ih (i + 1) (put s i x) (by omega)
    refine ⟨t, ?_, fun j hj => ?_, fun k y hk => ?_⟩
    · rw [h.cons s i x xs hi, ht]
    · rw [hbefore j (by omega), h.frame s i x hi j hj]
    · cases k with
      | zero =>
        obtain rfl := Option.some.inj hk
        rw [Nat.add_zero, hbefore i (by omega), h.written s i x hi]
      | succ k =>
        rw [show i + (k + 1) = i + 1 + k by omega]
        exact hval k y hk

end
/-! ## converting what is stored -/

section
variable {ι ε β : Type*} (parse : ι → Except ε β)

/-- the stores from cell `i` on, up to the first item that does not convert, and its error -/
def fill (i : Nat) : List ι → List (Op Nat β) × Option ε
  | [] => ([], none)
  | x :: xs =>
    match parse x with
    | .error e => ([], some e)
    | .ok v => (.wr i v :: (fill (i + 1) xs).1, (fill (i + 1) xs).2)

/-- the same in a buffer of `n` cells, with the error `e` for a store behind it -/
def fillWithin (n : Nat) (e : ε) (m : Nat → β) (i : Nat) : List ι → Except ε (Nat → β)
  | [] => .ok m
  | x :: xs => do
    let v ← parse x
    if i < n then fillWithin n e (Function.update m i v) (i + 1) xs else .error e

/-- how many items convert before the first that does not -/
def converted (xs : List ι) : Nat := (xs.takeWhile fun x => (parse x).isOk).length

theorem converted_le (xs : List ι) : converted parse xs ≤ xs.length :=
  (List.takeWhile_prefix _).length_le

section
variable {parse}

theorem fill_cons_ok {x : ι} {v : β} (h : parse x = .ok v) (i : Nat) (xs : List ι) :
    fill parse i (x :: xs) = (.wr i v :: (fill parse (i + 1) xs).1, (fill parse (i + 1) xs).2) := by
  rw [fill, h]

theorem converted_cons_ok {x : ι} {v : β} (h : parse x = .ok v) (xs : List ι) :
    converted parse (x :: xs) = converted parse xs + 1 := by
  rw [converted, List.takeWhile_cons_of_pos (by rw [h]; rfl), List.length_cons, converted]

theorem fill_cons_error {x : ι} {e : ε} (h : parse x = .error e) (i : Nat) (xs : List ι) :
    fill parse i (x :: xs) = ([], some e) := by
  rw [fill, h]

theorem converted_cons_error {x : ι} {e : ε} (h : parse x = .error e) (xs : List ι) :
    converted parse (x :: xs) = 0 := by
  rw [converted, List.takeWhile_cons_of_neg (by rw [h]; exact Bool.false_ne_true), List.length_nil]

end

/-- the stores are to the cells from `i` on, one for each item converted -/
theorem exists_mem_fill_iff (xs : List ι) (i j : Nat) :
    (∃ v, .wr j v ∈ (fill parse i xs).1) ↔ i ≤ j ∧ j < i + converted parse xs := by
  induction xs generalizing i with
  | nil =>
    show (∃ v, Op.wr j v ∈ ([] : List (Op Nat β))) ↔ i ≤ j ∧ j < i + 0
    simp
  | cons x xs ih =>
    cases hx : parse x with
    | error e =>
      rw [fill_cons_error hx, converted_cons_error hx]
      simp
    | ok v =>
      rw [fill_cons_ok hx, converted_cons_ok hx]
      have htail := ih (i + 1)
      refine ⟨fun h => ?_, fun hj => ?_⟩
      · obtain ⟨w, hw⟩ := h
        rcases List.mem_cons.mp hw with heq | hmem
        · rw [Op.wr.injEq] at heq
          omega
        · have hj := htail.mp ⟨w, hmem⟩
          omega
      · by_cases hij : j = i
        · rw [hij]
          exact ⟨v, List.mem_cons_self⟩
        · obtain ⟨w, hmem⟩ := htail.mpr (by omega)
          exact ⟨w, List.mem_cons_of_mem _ hmem⟩

theorem fill_error_iff (xs : List ι) (i : Nat) :
    (fill parse i xs).2 ≠ none ↔ converted parse xs < xs.length := by
  induction xs generalizing i with
  | nil => exact iff_of_false (fun h => h rfl) (Nat.lt_irrefl _)
  | cons x xs ih =>
    cases hx : parse x with
    | error e =>
      rw [fill_cons_error hx, converted_cons_error hx]
      simp
    | ok v =>
      rw [fill_cons_ok hx, converted_cons_ok hx, List.length_cons, Nat.add_lt_add_iff_right]
      exact ih (i + 1)

theorem fill_within_iff (xs : List ι) (n : Nat) :
    (∀ j v, .wr j v ∈ (fill parse 0 xs).1 → j < n) ↔ converted parse xs ≤ n := by
  refine ⟨fun h => ?_, fun h j v hv => ?_⟩
  · by_contra hlt
    obtain ⟨v, hv⟩ := (exists_mem_fill_iff parse xs 0 n).mpr (by omega)
    exact Nat.lt_irrefl n (h n v hv)
  · have hj := (exists_mem_fill_iff parse xs 0 j).mp ⟨v, hv⟩
    omega

theorem fill_covers_iff (xs : List ι) (n : Nat) :
    (∀ j < n, ∃ v, .wr j v ∈ (fill parse 0 xs).1) ↔ n ≤ converted parse xs := by
  refine ⟨fun h => ?_, fun h j hj => ?_⟩
  · by_contra hlt
    have hj := (exists_mem_fill_iff parse xs 0 (converted parse xs)).mp (h _ (by omega))
    omega
  · exact (exists_mem_fill_iff parse xs 0 j).mpr (by omega)

/-- **The bounded loop leaves the stores in the buffer**, if they all lie in it. -/
theorem fillWithin_eq (n : Nat) (e : ε) (m : Nat → β) (i : Nat) (xs : List ι) (hi : i ≤ n) :
    fillWithin parse n e m i xs
      = if i + converted parse xs ≤ n then
          match (fill parse i xs).2 with
          | none => .ok (after m (fill parse i xs).1)
          | some e' => .error e'
        else .error e := by
  induction xs generalizing m i with
  | nil =>
    have h0 : i + converted parse [] ≤ n := hi
    rw [if_pos h0]
    rfl
  | cons x xs ih =>
    rw [fillWithin]
    cases hx : parse x with
    | error e' =>
      rw [fill_cons_error hx, converted_cons_error hx, if_pos (by omega)]
      rfl
    | ok v =>
      rw [fill_cons_ok hx, converted_cons_ok hx]
      show (if i < n then _ else _) = _
      by_cases hlt : i < n
      · rw [if_pos hlt, ih _ _ (by omega), show i + 1 + converted parse xs
          = i + (converted parse xs + 1) by omega]
        rfl
      · rw [if_neg hlt, if_neg (by omega)]

theorem fillWithin_append (n : Nat) (e : ε) (m : Nat → β) (i : Nat) (xs ys : List ι) :
    fillWithin parse n e m i (xs ++ ys)
      = fillWithin parse n e m i xs >>= fun m' => fillWithin parse n e m' (i + xs.length) ys := by
  induction xs generalizing m i with
  | nil => rfl
  | cons x xs ih =>
    rw [List.cons_append, fillWithin, fillWithin]
    cases parse x with
    | error e' => rfl
    | ok v =>
      show (if i < n then _ else _) = (if i < n then _ else _) >>= _
      by_cases hlt : i < n
      · rw [if_pos hlt, if_pos hlt, ih, List.length_cons,
          show i + 1 + xs.length = i + (xs.length + 1) by omega]
      · rw [if_neg hlt, if_neg hlt]
        rfl

end
end Store
