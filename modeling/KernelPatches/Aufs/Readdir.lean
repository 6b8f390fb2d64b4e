/-
  aufs: reading a hidden directory to its end.

  Both the listing and the test for emptiness read a hidden directory chunk by chunk, with a function
  that is called for each entry, until a chunk delivers nothing or something fails.  What is true of
  the function's argument after each entry is true at the end, of all the entries (`readAll_rule`).
-/
import KernelPatches.Aufs.Vdir

namespace KernelPatches.Aufs

variable {σ : Type} {f : Filldir σ}

/-- The entries of chunks: one of none is the end. -/
def chunkEntries (chunks : List (List DirEnt × Int)) : List DirEnt :=
  (chunks.takeWhile fun c => !c.1.isEmpty).flatMap Prod.fst

/-- The entries a hidden directory delivers. -/
def HFile.entries (hf : HFile) : List DirEnt := chunkEntries hf.chunks

/-- What a function called for the entries `all` keeps: `I done arg` holds after the entries `done`, and
    `Q` where it fails. -/
structure Filldir.Keeps (f : Filldir σ) (all : List DirEnt) (I : List DirEnt → σ → Prop) (Q : σ → Prop) :
    Prop where
  clear : ∀ done arg, I done arg → I done (f.clear arg)
  err_clear : ∀ arg, f.err (f.clear arg) = 0
  called_clear : ∀ arg, f.called (f.clear arg) = false
  called : ∀ e arg arg', f.call e arg = .ok arg' → f.called arg' = true
  step : ∀ done e rest arg arg', all = done ++ e :: rest → I done arg → f.call e arg = .ok arg' →
    f.err arg' = 0 → I (done ++ [e]) arg'
  fail : ∀ done e rest arg arg', all = done ++ e :: rest → I done arg → f.call e arg = .ok arg' →
    f.err arg' ≠ 0 → Q arg'

section

variable {all : List DirEnt} {I : List DirEnt → σ → Prop} {Q : σ → Prop}

/-- A chunk. -/
theorem vfsubReaddir_rule (h : f.Keeps all I Q) : ∀ {es done rest : List DirEnt} {arg arg' : σ},
    all = done ++ (es ++ rest) → I done arg → f.err arg = 0 → vfsubReaddir f es arg = .ok arg' →
    (es ≠ [] → f.called arg' = true) ∧
      ((f.err arg' = 0 ∧ I (done ++ es) arg') ∨ (f.err arg' ≠ 0 ∧ Q arg'))
  | [], done, rest, arg, arg', _, hI, herr, hread => by
    obtain rfl := Except.ok.inj hread
    rw [List.append_nil]
    exact ⟨fun hc => absurd rfl hc, Or.inl ⟨herr, hI⟩⟩
  | e :: es, done, rest, arg, arg', hall, hI, _, hread => by
    rw [vfsubReaddir] at hread
    rcases hcall : f.call e arg with t | arg₁
    · rw [hcall] at hread
      cases hread
    simp only [hcall] at hread
    have hcalled := h.called e arg arg₁ hcall
    by_cases h0 : f.err arg₁ = 0
    · rw [if_neg (not_not.mpr h0)] at hread
      have hI₁ := h.step done e (es ++ rest) arg arg₁ hall hI hcall h0
      have hall₁ : all = done ++ [e] ++ (es ++ rest) := by rw [List.append_assoc]; exact hall
      obtain ⟨hcalled', hres⟩ := vfsubReaddir_rule h hall₁ hI₁ h0 hread
      rw [List.append_assoc] at hres
      refine ⟨fun _ => ?_, hres⟩
      cases es with
      | nil =>
        obtain rfl := Except.ok.inj hread
        exact hcalled
      | cons e' es => exact hcalled' (List.cons_ne_nil e' es)
    · rw [if_pos h0] at hread
      obtain rfl := Except.ok.inj hread
      exact ⟨fun _ => hcalled, Or.inr ⟨h0, h.fail done e (es ++ rest) arg arg₁ hall hI hcall h0⟩⟩

/-- **All chunks.**  The loop ends with all the entries read, or where the function failed, or with the
    error of a `readdir`. -/
theorem readAll_rule (h : f.Keeps all I Q) : ∀ {chunks : List (List DirEnt × Int)} {done : List DirEnt}
    {arg arg' : σ} {err : Int}, all = done ++ chunkEntries chunks → I done arg →
    readAll f chunks arg = .ok (err, arg') →
    (err = 0 ∧ I all arg') ∨ (err ≠ 0 ∧ err = f.err arg' ∧ Q arg') ∨ ∃ c ∈ chunks, c.2 = err ∧ err < 0
  | [], done, arg, arg', err, hall, hI, hread => by
    obtain rfl := congrArg Prod.fst (Except.ok.inj hread)
    obtain rfl := congrArg Prod.snd (Except.ok.inj hread)
    rw [hall]
    exact Or.inl ⟨rfl, (List.append_nil done).symm ▸ h.clear done arg hI⟩
  | (es, r) :: chunks, done, arg, arg', err, hall, hI, hread => by
    rw [readAll] at hread
    rcases hchunk : vfsubReaddir f es (f.clear arg) with t | arg₁
    · rw [hchunk] at hread
      cases hread
    simp only [hchunk] at hread
    cases es with
    | nil =>
      -- Nothing was delivered: the end.
      obtain rfl := Except.ok.inj hchunk
      rw [if_neg (by rw [h.called_clear]; rintro ⟨-, hc⟩; cases hc)] at hread
      obtain rfl := congrArg Prod.snd (Except.ok.inj hread)
      have herr := congrArg Prod.fst (Except.ok.inj hread)
      rw [h.err_clear] at herr
      have hall' : all = done := by rw [hall, chunkEntries, List.takeWhile_cons_of_neg (by simp)]; simp
      by_cases hr : 0 ≤ r
      · rw [if_pos hr] at herr
        refine Or.inl ⟨herr.symm, ?_⟩
        rw [hall']
        exact h.clear done arg hI
      · rw [if_neg hr] at herr
        exact Or.inr (Or.inr ⟨([], r), List.mem_cons_self, herr, by omega⟩)
    | cons e es =>
      have hsplit : chunkEntries ((e :: es, r) :: chunks) = (e :: es) ++ chunkEntries chunks := by
        rw [chunkEntries, List.takeWhile_cons_of_pos (by simp), List.flatMap_cons]
        rfl
      rw [hsplit] at hall
      obtain ⟨hcalled, hres⟩ := vfsubReaddir_rule h hall (h.clear done arg hI) (h.err_clear arg) hchunk
      by_cases hr : 0 ≤ r
      · rw [if_pos hr] at hread
        rcases hres with ⟨h0, hI₁⟩ | ⟨h0, hQ⟩
        · rw [if_pos ⟨h0, hcalled (List.cons_ne_nil e es)⟩] at hread
          have hall₁ : all = done ++ e :: es ++ chunkEntries chunks := by
            rw [List.append_assoc]
            exact hall
          rcases readAll_rule h hall₁ hI₁ hread with hok | hfail | ⟨c, hc, hcr⟩
          · exact Or.inl hok
          · exact Or.inr (Or.inl hfail)
          · exact Or.inr (Or.inr ⟨c, List.mem_cons_of_mem _ hc, hcr⟩)
        · rw [if_neg (fun hc => h0 hc.1)] at hread
          obtain rfl := congrArg Prod.snd (Except.ok.inj hread)
          obtain rfl := congrArg Prod.fst (Except.ok.inj hread)
          exact Or.inr (Or.inl ⟨h0, rfl, hQ⟩)
      · rw [if_neg hr, if_neg (fun hc => by have := hc.1; omega)] at hread
        obtain rfl : r = err := congrArg Prod.fst (Except.ok.inj hread)
        exact Or.inr (Or.inr ⟨(e :: es, r), List.mem_cons_self, rfl, by omega⟩)

/-- What the function leaves alone is what it was, however the reading ends. -/
theorem vfsubReaddir_preserves {τ : Type} (p : σ → τ)
    (hcall : ∀ e arg arg', f.call e arg = .ok arg' → p arg' = p arg) : ∀ {es : List DirEnt} {arg arg' : σ},
    vfsubReaddir f es arg = .ok arg' → p arg' = p arg
  | [], arg, arg', hread => by
    obtain rfl := Except.ok.inj hread
    rfl
  | e :: es, arg, arg', hread => by
    rw [vfsubReaddir] at hread
    rcases h : f.call e arg with t | arg₁
    · rw [h] at hread
      cases hread
    simp only [h] at hread
    have hkeep := hcall e arg arg₁ h
    split at hread
    · obtain rfl := Except.ok.inj hread
      exact hkeep
    · exact (vfsubReaddir_preserves p hcall hread).trans hkeep

theorem readAll_preserves {τ : Type} (p : σ → τ) (hclear : ∀ arg, p (f.clear arg) = p arg)
    (hcall : ∀ e arg arg', f.call e arg = .ok arg' → p arg' = p arg) :
    ∀ {chunks : List (List DirEnt × Int)} {arg arg' : σ} {err : Int},
    readAll f chunks arg = .ok (err, arg') → p arg' = p arg
  | [], arg, arg', err, hread => by
    obtain rfl := congrArg Prod.snd (Except.ok.inj hread)
    exact hclear arg
  | (es, r) :: chunks, arg, arg', err, hread => by
    rw [readAll] at hread
    rcases hchunk : vfsubReaddir f es (f.clear arg) with t | arg₁
    · rw [hchunk] at hread
      cases hread
    simp only [hchunk] at hread
    have hkeep := (vfsubReaddir_preserves p hcall hchunk).trans (hclear arg)
    generalize (if 0 ≤ r then f.err arg₁ else r) = err₁ at hread
    split at hread
    · exact (readAll_preserves p hclear hcall hread).trans hkeep
    · obtain rfl := congrArg Prod.snd (Except.ok.inj hread)
      exact hkeep

/-- A function that never ends the kernel is read with to some end. -/
theorem vfsubReaddir_total (h : ∀ e arg, ∃ arg', f.call e arg = .ok arg') : ∀ (es : List DirEnt) (arg : σ),
    ∃ arg', vfsubReaddir f es arg = .ok arg'
  | [], arg => ⟨arg, rfl⟩
  | e :: es, arg => by
    obtain ⟨arg₁, hcall⟩ := h e arg
    rw [vfsubReaddir, hcall]
    by_cases h0 : f.err arg₁ ≠ 0
    · exact ⟨arg₁, if_pos h0⟩
    · obtain ⟨arg', harg'⟩ := vfsubReaddir_total h es arg₁
      exact ⟨arg', (if_neg h0).trans harg'⟩

theorem readAll_total (h : ∀ e arg, ∃ arg', f.call e arg = .ok arg') :
    ∀ (chunks : List (List DirEnt × Int)) (arg : σ), ∃ r, readAll f chunks arg = .ok r
  | [], arg => ⟨_, rfl⟩
  | (es, r) :: chunks, arg => by
    obtain ⟨arg₁, hchunk⟩ := vfsubReaddir_total h es (f.clear arg)
    rw [readAll, hchunk]
    by_cases hc : (if 0 ≤ r then f.err arg₁ else r) = 0 ∧ f.called arg₁ = true
    · obtain ⟨r', hr'⟩ := readAll_total h chunks arg₁
      exact ⟨r', (if_pos hc).trans hr'⟩
    · exact ⟨_, if_neg hc⟩

end

end KernelPatches.Aufs
