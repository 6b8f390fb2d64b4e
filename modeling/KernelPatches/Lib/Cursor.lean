/-
  Reading a list piece by piece, by offset.

  The entries of a list are told apart by their OFFSETS, which go up.  A reader is at an offset; a call
  hands out as many of the entries from there on as are taken, and leaves the reader at the offset of
  the first one not taken, or at the end of the list.  Whoever remembers an offset can come back to it.

  * `Track`         — the entries with their offsets, and the offset of the end;
  * `Track.rest o`  — the entries from offset `o` on;
  * `Track.after n o` — the offset a call at `o` which hands out `n` entries leaves the reader at;
  * `rest_after`    — what is left there is what the call did not hand out;
  * `known_after`   — and it is the offset of an entry, or the end.

  A reader may also be sent to an offset that is none of an entry.  If it then only adds up the sizes of
  what is handed out, it stays short of the entries by the distance it was sent short of the first one,
  until it gets to another BLOCK of the list, where it starts anew.

  * `Track.slipped`  — the offset a call leaves such a reader at;
  * `calls_deliver_iff` — the calls hand out the entries from there on, each once, iff the distance is less
    than what each entry takes that is handed out before the end of the block.
-/
import Mathlib.Data.List.Pairwise
import Mathlib.Tactic.Common

namespace KernelPatches.Lib

/-- Entries with offsets that go up, and an offset for the end. -/
structure Track (α : Type) where
  pos : List (α × Nat)
  fin : Nat
  up : pos.Pairwise fun x y => x.2 < y.2
  lt_fin : ∀ x ∈ pos, x.2 < fin

namespace Track

variable {α : Type} (t : Track α)

/-- The entries from an offset on. -/
def rest (o : Nat) : List (α × Nat) := t.pos.filter fun x => o ≤ x.2

/-- The offset of the first entry of a list, the end if there is none. -/
def headOffset : List (α × Nat) → Nat
  | [] => t.fin
  | x :: _ => x.2

/-- The offset after a call at `o` which hands out `n` entries. -/
def after (n o : Nat) : Nat := t.headOffset ((t.rest o).drop n)

/-- An offset a reader can be at: that of an entry, or the end. -/
def Known (o : Nat) : Prop := (∃ x ∈ t.pos, x.2 = o) ∨ o = t.fin

variable {t}

/-- Where the offsets pass `o` the list is cut. -/
theorem rest_eq_of_split {l₁ l₂ : List (α × Nat)} {o : Nat} (h : t.pos = l₁ ++ l₂)
    (h₁ : ∀ x ∈ l₁, x.2 < o) (h₂ : ∀ x ∈ l₂, o ≤ x.2) : t.rest o = l₂ := by
  have hnil : l₁.filter (fun x => decide (o ≤ x.2)) = [] := by
    refine List.filter_eq_nil_iff.mpr (fun x hx => ?_)
    have hx' := h₁ x hx
    rw [decide_eq_true_eq]
    omega
  have hall : l₂.filter (fun x => decide (o ≤ x.2)) = l₂ :=
    List.filter_eq_self.mpr fun x hx => decide_eq_true (h₂ x hx)
  rw [rest, h, List.filter_append, hnil, hall]
  rfl

theorem rest_headOffset {l₁ l₂ : List (α × Nat)} (h : t.pos = l₁ ++ l₂) :
    t.rest (t.headOffset l₂) = l₂ := by
  have hup : (l₁ ++ l₂).Pairwise fun x y => x.2 < y.2 := h ▸ t.up
  have hlt : ∀ x ∈ l₁ ++ l₂, x.2 < t.fin := h ▸ t.lt_fin
  obtain ⟨-, hup₂, hup₁₂⟩ := List.pairwise_append.mp hup
  cases l₂ with
  | nil =>
    refine rest_eq_of_split h (fun x hx => hlt x (List.mem_append_left [] hx)) fun x hx => ?_
    exact absurd hx List.not_mem_nil
  | cons y l₂ =>
    refine rest_eq_of_split h (fun x hx => hup₁₂ x hx y List.mem_cons_self) fun x hx => ?_
    rcases List.mem_cons.mp hx with rfl | hx
    · exact Nat.le_refl _
    · exact Nat.le_of_lt ((List.pairwise_cons.mp hup₂).1 x hx)

/-- The entries from an offset on are an end of the list. -/
theorem exists_rest (t : Track α) (o : Nat) : ∃ l, t.pos = l ++ t.rest o := by
  have hsuffix : ∀ {l : List (α × Nat)}, (l.Pairwise fun x y => x.2 < y.2) →
      ∃ l', l = l' ++ l.filter fun x => decide (o ≤ x.2) := by
    intro l hup
    induction l with
    | nil => exact ⟨[], rfl⟩
    | cons x l ih =>
      obtain ⟨hx, hl⟩ := List.pairwise_cons.mp hup
      by_cases ho : o ≤ x.2
      · have hall : (x :: l).filter (fun x => decide (o ≤ x.2)) = x :: l := by
          refine List.filter_eq_self.mpr (fun y hy => decide_eq_true ?_)
          rcases List.mem_cons.mp hy with rfl | hy
          · exact ho
          · exact Nat.le_trans ho (Nat.le_of_lt (hx y hy))
        exact ⟨[], hall.symm⟩
      · obtain ⟨l', hl'⟩ := ih hl
        refine ⟨x :: l', ?_⟩
        rw [List.filter_cons_of_neg (by rw [decide_eq_true_eq]; exact ho), List.cons_append, ← hl']
  exact hsuffix t.up

/-- **What a call leaves** is what it does not hand out. -/
theorem rest_after (t : Track α) (n o : Nat) : t.rest (t.after n o) = (t.rest o).drop n := by
  obtain ⟨l, hl⟩ := t.exists_rest o
  refine @rest_headOffset _ t (l ++ (t.rest o).take n) _ ?_
  rw [List.append_assoc, List.take_append_drop]
  exact hl

/-- What was handed out before and what is handed out now is the start of what there was. -/
theorem append_take_rest {o o' : Nat} {got : List (α × Nat)} (h : t.rest o = got ++ t.rest o') (n : Nat) :
    t.rest o = got ++ (t.rest o').take n ++ t.rest (t.after n o') := by
  rw [rest_after, List.append_assoc, List.take_append_drop]
  exact h

theorem known_after (t : Track α) (n o : Nat) : t.Known (t.after n o) := by
  obtain ⟨l, hl⟩ := t.exists_rest o
  rw [after]
  cases hd : (t.rest o).drop n with
  | nil => exact Or.inr rfl
  | cons x r =>
    refine Or.inl ⟨x, ?_, rfl⟩
    rw [hl]
    refine List.mem_append_right l (List.mem_of_mem_drop (i := n) ?_)
    rw [hd]
    exact List.mem_cons_self

/-- A reader at a known offset is at the first of the entries from there on. -/
theorem headOffset_rest {o : Nat} (h : t.Known o) : t.headOffset (t.rest o) = o := by
  rcases h with ⟨x, hx, rfl⟩ | rfl
  · have hmem : x ∈ t.rest x.2 := List.mem_filter.mpr ⟨hx, decide_eq_true (Nat.le_refl _)⟩
    have hup : (t.rest x.2).Pairwise fun x y => x.2 < y.2 := t.up.filter _
    cases hr : t.rest x.2 with
    | nil =>
      rw [hr] at hmem
      cases hmem
    | cons y r =>
      have hy : x.2 ≤ y.2 := by
        have hmem' : y ∈ t.rest x.2 := by rw [hr]; exact List.mem_cons_self
        exact of_decide_eq_true (List.mem_filter.mp hmem').2
      rw [hr] at hmem hup
      rcases List.mem_cons.mp hmem with rfl | hmem
      · rfl
      · have hlt := (List.pairwise_cons.mp hup).1 x hmem
        omega
  · have hnil : t.rest t.fin = [] := by
      refine List.filter_eq_nil_iff.mpr (fun x hx => ?_)
      have hlt := t.lt_fin x hx
      rw [decide_eq_true_eq]
      omega
    rw [hnil]
    rfl

theorem known_of_mem_rest {x : α × Nat} {o : Nat} (h : x ∈ t.rest o) : t.Known x.2 :=
  Or.inl ⟨x, (List.mem_filter.mp h).1, rfl⟩

/-! ## Short of the entries -/

/-- The offset after a call at `o` that hands out `n` entries: the distance to the first one stays, as long as
    the block does. -/
def slipped (t : Track α) (blk : Nat → Nat) (n o : Nat) : Nat :=
  if blk (t.after n o) = blk (t.headOffset (t.rest o)) then t.after n o + o - t.headOffset (t.rest o)
  else t.after n o

/-- Calls, one after the other, which hand out so many entries each: what is handed out, whether the last call
    came to the end, and the offset. -/
def calls (t : Track α) (blk : Nat → Nat) : List Nat → List (α × Nat) × Bool × Nat →
    List (α × Nat) × Bool × Nat
  | [], s => s
  | n :: ns, (got, _, o) =>
    calls t blk ns (got ++ (t.rest o).take n, decide ((t.rest o).length ≤ n), t.slipped blk n o)

/-- The calls from `o` on hand out the entries from there on, in order and each once, and all of them when the
    end is reached, as far as `f` lets see. -/
def Delivers {β : Type} (t : Track α) (blk : Nat → Nat) (f : α × Nat → β) (o : Nat) : Prop :=
  ∀ ns, (∃ l, (t.rest o).map f = (t.calls blk ns ([], false, o)).1.map f ++ l) ∧
    ((t.calls blk ns ([], false, o)).2.1 = true →
      (t.calls blk ns ([], false, o)).1.map f = (t.rest o).map f)

/-- Each entry from `o` on takes more than the distance from `o` to the first one, unless another block follows
    it. -/
def Clears (t : Track α) (blk : Nat → Nat) (o : Nat) : Prop :=
  ∀ l x r, t.rest o = l ++ x :: r → blk (t.headOffset r) = blk (t.headOffset (t.rest o)) →
    t.headOffset (t.rest o) - o < t.headOffset r - x.2

/-- Blocks follow each other as the offsets do. -/
def Blocks (t : Track α) (blk : Nat → Nat) : Prop :=
  ∀ o o', t.Known o → t.Known o' → o ≤ o' → blk o ≤ blk o'

theorem slipped_known {blk : Nat → Nat} {o : Nat} (h : t.Known o) (n : Nat) :
    t.slipped blk n o = t.after n o := by
  rw [slipped, headOffset_rest h, Nat.add_sub_cancel]
  exact ite_self _

theorem known_headOffset {l r : List (α × Nat)} (h : t.pos = l ++ r) : t.Known (t.headOffset r) := by
  cases r with
  | nil => exact Or.inr rfl
  | cons x r =>
    refine Or.inl ⟨x, ?_, rfl⟩
    rw [h]
    exact List.mem_append_right l List.mem_cons_self

theorem known_after_drop (t : Track α) (o j : Nat) : t.Known (t.headOffset ((t.rest o).drop j)) :=
  t.known_after j o

/-- No entry from `o` on is before it. -/
theorem le_of_mem_rest {x : α × Nat} {o : Nat} (h : x ∈ t.rest o) : o ≤ x.2 :=
  of_decide_eq_true (List.mem_filter.mp h).2

theorem headOffset_le_drop (t : Track α) (o j : Nat) :
    t.headOffset (t.rest o) ≤ t.headOffset ((t.rest o).drop j) := by
  obtain ⟨l, hl⟩ := t.exists_rest o
  have hup : (t.rest o).Pairwise fun x y => x.2 < y.2 := t.up.filter _
  cases hr : t.rest o with
  | nil => exact Nat.le_of_eq (congrArg t.headOffset List.drop_nil.symm)
  | cons x r =>
    have hx : x ∈ t.pos := by
      rw [hl, hr]
      exact List.mem_append_right l List.mem_cons_self
    cases hd : (x :: r).drop j with
    | nil => exact Nat.le_of_lt (t.lt_fin x hx)
    | cons y r' =>
      have hy : y ∈ x :: r := List.mem_of_mem_drop (hd ▸ List.mem_cons_self)
      rw [hr] at hup
      rcases List.mem_cons.mp hy with rfl | hy
      · exact Nat.le_refl _
      · exact Nat.le_of_lt ((List.pairwise_cons.mp hup).1 y hy)

/-- The first entry left is behind the last one handed out. -/
theorem lt_headOffset {l r : List (α × Nat)} {x : α × Nat} {o : Nat} (h : t.rest o = l ++ x :: r) :
    x.2 < t.headOffset r := by
  have hup : (t.rest o).Pairwise fun x y => x.2 < y.2 := t.up.filter _
  have hx : x ∈ t.rest o := by
    rw [h]
    exact List.mem_append_right l List.mem_cons_self
  cases r with
  | nil => exact t.lt_fin x (List.mem_filter.mp hx).1
  | cons y r =>
    rw [h] at hup
    exact (List.pairwise_cons.mp (List.pairwise_append.mp hup).2.1).1 y List.mem_cons_self

/-- Where a reader short of the entries is after `j` of them. -/
def shortOf (t : Track α) (blk : Nat → Nat) (o j : Nat) : Nat :=
  if blk (t.headOffset ((t.rest o).drop j)) = blk (t.headOffset (t.rest o)) then
    t.headOffset ((t.rest o).drop j) + o - t.headOffset (t.rest o)
  else t.headOffset ((t.rest o).drop j)

theorem shortOf_zero (t : Track α) (blk : Nat → Nat) (o : Nat) : t.shortOf blk o 0 = o := by
  rw [shortOf, List.drop_zero, if_pos rfl]
  omega

/-- **No entry is passed twice** while the distance is less than what the last one took. -/
theorem rest_shortOf {blk : Nat → Nat} {o : Nat} (hc : t.Clears blk o) (j : Nat) :
    t.rest (t.shortOf blk o j) = (t.rest o).drop j := by
  obtain ⟨l₀, hl₀⟩ := t.exists_rest o
  by_cases hblk : blk (t.headOffset ((t.rest o).drop j)) = blk (t.headOffset (t.rest o))
  case neg =>
    rw [shortOf, if_neg hblk]
    have hpos : t.pos = (l₀ ++ (t.rest o).take j) ++ (t.rest o).drop j := by
      rw [List.append_assoc, List.take_append_drop]
      exact hl₀
    exact rest_headOffset hpos
  by_cases hj : (t.rest o).take j = []
  · -- nothing was handed out
    have hdrop : (t.rest o).drop j = t.rest o := by
      have happ := List.take_append_drop j (t.rest o)
      rwa [hj, List.nil_append] at happ
    rw [shortOf, hdrop, if_pos rfl, Nat.add_sub_cancel_left]
  obtain ⟨l, x, hlx⟩ : ∃ l x, (t.rest o).take j = l ++ [x] :=
    ⟨_, _, (List.dropLast_concat_getLast hj).symm⟩
  have hsplit : t.rest o = l ++ x :: (t.rest o).drop j := by
    conv_lhs => rw [← List.take_append_drop j (t.rest o), hlx]
    rw [List.append_assoc]
    rfl
  have hdist := hc l x _ hsplit hblk
  have hx := le_of_mem_rest (t := t) (o := o) (x := x) (by
    rw [hsplit]
    exact List.mem_append_right l List.mem_cons_self)
  have hlt := lt_headOffset hsplit
  have hle := t.headOffset_le_drop o j
  have hhead : o ≤ t.headOffset (t.rest o) := by
    cases hr : t.rest o with
    | nil => rw [hr, List.take_nil] at hj; exact absurd rfl hj
    | cons y r => exact le_of_mem_rest (by rw [hr]; exact List.mem_cons_self)
  have hup : (t.rest o).Pairwise fun x y => x.2 < y.2 := t.up.filter _
  rw [shortOf, if_pos hblk]
  have hpos : t.pos = (l₀ ++ (l ++ [x])) ++ (t.rest o).drop j := by
    rw [List.append_assoc, List.append_assoc, hl₀]
    conv_lhs => rw [hsplit]
    rfl
  refine rest_eq_of_split hpos (fun y hy => ?_) fun y hy => ?_
  · have hyx : y.2 ≤ x.2 := by
      rcases List.mem_append.mp hy with hy | hy
      · -- before `o` altogether
        have hpos : (l₀ ++ t.rest o).Pairwise fun x y => x.2 < y.2 := hl₀ ▸ t.up
        refine Nat.le_of_lt ((List.pairwise_append.mp hpos).2.2 y hy x ?_)
        rw [hsplit]
        exact List.mem_append_right l List.mem_cons_self
      · rcases List.mem_append.mp hy with hy | hy
        · rw [hsplit] at hup
          exact Nat.le_of_lt ((List.pairwise_append.mp hup).2.2 y hy x List.mem_cons_self)
        · exact Nat.le_of_eq (congrArg Prod.snd (List.mem_singleton.mp hy))
    omega
  · have hy' : t.headOffset ((t.rest o).drop j) ≤ y.2 := by
      have hupd : ((t.rest o).drop j).Pairwise fun x y => x.2 < y.2 := hup.sublist (List.drop_sublist j _)
      cases hd : (t.rest o).drop j with
      | nil => rw [hd] at hy; cases hy
      | cons z r =>
        rw [hd] at hy hupd
        rcases List.mem_cons.mp hy with rfl | hy
        · exact Nat.le_refl _
        · exact Nat.le_of_lt ((List.pairwise_cons.mp hupd).1 y hy)
    omega

/-- One call more. -/
theorem slipped_shortOf {blk : Nat → Nat} {o : Nat} (hb : t.Blocks blk) (hc : t.Clears blk o) (j n : Nat) :
    t.slipped blk n (t.shortOf blk o j) = t.shortOf blk o (j + n) := by
  have hafter : t.after n (t.shortOf blk o j) = t.headOffset ((t.rest o).drop (j + n)) := by
    rw [after, rest_shortOf hc, List.drop_drop]
  have hle := t.headOffset_le_drop o j
  have hmono : t.headOffset ((t.rest o).drop j) ≤ t.headOffset ((t.rest o).drop (j + n)) := by
    have h := t.headOffset_le_drop (t.shortOf blk o j) n
    rwa [rest_shortOf hc, List.drop_drop] at h
  have hb₁ := hb _ _ (t.known_after_drop o 0) (t.known_after_drop o j) hle
  have hb₂ := hb _ _ (t.known_after_drop o j) (t.known_after_drop o (j + n)) hmono
  rw [List.drop_zero] at hb₁
  rw [slipped, hafter, rest_shortOf hc]
  rw [shortOf, shortOf]
  by_cases hj : blk (t.headOffset ((t.rest o).drop j)) = blk (t.headOffset (t.rest o))
  · rw [if_pos hj, hj]
    split
    · omega
    · rfl
  · rw [if_neg hj, Nat.add_sub_cancel, ite_self, if_neg (by omega)]

/-- **What the calls hand out**, as long as the distance is less than what the entries take. -/
theorem calls_spec {blk : Nat → Nat} {o : Nat} (hb : t.Blocks blk) (hc : t.Clears blk o) :
    ∀ (ns : List Nat) (j : Nat) (ended : Bool), (ended = true → (t.rest o).drop j = []) →
    ∃ j' ended', t.calls blk ns ((t.rest o).take j, ended, t.shortOf blk o j) =
        ((t.rest o).take j', ended', t.shortOf blk o j') ∧ (ended' = true → (t.rest o).drop j' = [])
  | [], j, ended, hend => ⟨j, ended, rfl, hend⟩
  | n :: ns, j, ended, hend => by
    have htake : (t.rest o).take j ++ ((t.rest o).drop j).take n = (t.rest o).take (j + n) :=
      List.take_add.symm
    have hnext : decide (((t.rest o).drop j).length ≤ n) = true → (t.rest o).drop (j + n) = [] := by
      intro h
      have hlen := of_decide_eq_true h
      rw [List.length_drop] at hlen
      exact List.drop_eq_nil_of_le (by omega)
    obtain ⟨j', ended', heq, hend'⟩ := calls_spec hb hc ns (j + n) _ hnext
    refine ⟨j', ended', ?_, hend'⟩
    rw [calls, rest_shortOf hc, slipped_shortOf hb hc, htake]
    exact heq

/-- Otherwise some entry comes up again, and in the end too much was handed out. -/
theorem calls_too_many {blk : Nat → Nat} {o : Nat} (hc : ¬ t.Clears blk o) :
    ∃ ns, (t.rest o).length < (t.calls blk ns ([], false, o)).1.length := by
  rw [Clears] at hc
  push Not at hc
  obtain ⟨l, x, r, hsplit, hblk, hle⟩ := hc
  have hdrop : (t.rest o).drop (l.length + 1) = r := by
    rw [hsplit, ← List.singleton_append, ← List.append_assoc]
    exact List.drop_left' (by rw [List.length_append]; rfl)
  have htake : (t.rest o).take (l.length + 1) = l ++ [x] := by
    rw [hsplit, ← List.singleton_append, ← List.append_assoc]
    exact List.take_left' (by rw [List.length_append]; rfl)
  -- the first call hands out `x` and leaves an offset that is not behind it
  have hslip : t.slipped blk (l.length + 1) o ≤ x.2 := by
    have hlt := lt_headOffset hsplit
    rw [slipped, after, hdrop, if_pos hblk]
    omega
  have hup : (t.rest o).Pairwise fun x y => x.2 < y.2 := t.up.filter _
  have hsub : (x :: r).Sublist (t.rest (t.slipped blk (l.length + 1) o)) := by
    have hsub' : (x :: r).Sublist t.pos := by
      have h₁ : (x :: r).Sublist (t.rest o) := by
        rw [hsplit]
        exact List.sublist_append_right l (x :: r)
      exact h₁.trans List.filter_sublist
    have hall : (x :: r).filter (fun y => decide (t.slipped blk (l.length + 1) o ≤ y.2)) = x :: r := by
      refine List.filter_eq_self.mpr (fun y hy => decide_eq_true ?_)
      rcases List.mem_cons.mp hy with rfl | hy
      · exact hslip
      · rw [hsplit] at hup
        have hlt := (List.pairwise_cons.mp (List.pairwise_append.mp hup).2.1).1 y hy
        omega
    rw [← hall]
    exact hsub'.filter _
  have hlen := hsub.length_le
  refine ⟨[l.length + 1, (t.rest (t.slipped blk (l.length + 1) o)).length], ?_⟩
  rw [calls, calls, calls, htake, List.take_length, List.nil_append]
  show _ < (l ++ [x] ++ t.rest (t.slipped blk (l.length + 1) o)).length
  rw [hsplit]
  simp only [List.length_append, List.length_cons, List.length_nil] at hlen ⊢
  omega

/-- **Reading from any offset** is right iff the distance to the first entry is less than what each entry takes,
    the last one of a block apart that is not the last. -/
theorem calls_deliver_iff {β : Type} {blk : Nat → Nat} {o : Nat} (hb : t.Blocks blk) (f : α × Nat → β) :
    t.Delivers blk f o ↔ t.Clears blk o := by
  constructor
  · intro hd
    by_contra hc
    obtain ⟨ns, hlt⟩ := calls_too_many hc
    obtain ⟨⟨l, hl⟩, -⟩ := hd ns
    have hlen := congrArg List.length hl
    rw [List.length_append, List.length_map, List.length_map] at hlen
    omega
  · intro hc ns
    obtain ⟨j, ended, heq, hend⟩ := calls_spec hb hc ns 0 false (fun h => by cases h)
    rw [shortOf_zero, List.take_zero] at heq
    rw [heq]
    have happ := List.take_append_drop j (t.rest o)
    refine ⟨⟨((t.rest o).drop j).map f, ?_⟩, fun h => ?_⟩
    · rw [← List.map_append, happ]
    · rw [hend h, List.append_nil] at happ
      exact congrArg (List.map f) happ

/-- A call does not go past the end. -/
theorem slipped_le (t : Track α) (blk : Nat → Nat) (n o : Nat) :
    t.slipped blk n o ≤ t.fin ∨ t.slipped blk n o = o := by
  have hafter : t.after n o ≤ t.fin := by
    rcases t.known_after n o with ⟨x, hx, heq⟩ | heq
    · rw [← heq]
      exact Nat.le_of_lt (t.lt_fin x hx)
    · exact Nat.le_of_eq heq
  by_cases hnil : t.rest o = []
  · right
    rw [slipped, after, hnil, List.drop_nil, if_pos rfl, Nat.add_sub_cancel_left]
  · left
    obtain ⟨x, r, hr⟩ := List.exists_cons_of_ne_nil hnil
    have hx : o ≤ x.2 := le_of_mem_rest (by rw [hr]; exact List.mem_cons_self)
    have hhead : t.headOffset (t.rest o) = x.2 := by rw [hr]; rfl
    rw [slipped, hhead]
    split
    · omega
    · exact hafter

end Track

end KernelPatches.Lib
