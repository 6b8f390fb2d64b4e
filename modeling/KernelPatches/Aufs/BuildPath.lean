/-
  aufs: the path of a hidden directory, under the mount point.

  To find the dentry of a file handle, `decode_by_path` looks up the path of the hidden parent as it is seen in
  aufs: that of the mount point, and behind it that of the directory relative to the root of its branch.
  `au_build_path` makes it in one page from the end: `d_path` puts the path of the directory there, the part that is
  the branch's is skipped, and `d_path` puts the path of the mount point right before the rest.

  Its terminator comes to lie on the first byte of the rest, which is a slash, and is made one again, but only if
  the branch is not the root of its file system.  And if there is no rest, this byte is the terminator of the whole
  path.

  * `auBuildPath`             — the call;
  * `BuildsAtEnd`             — what it relies on `d_path` for;
  * `auBuildPath_run`         — what is in the page in the end;
  * `BuildsPath`              — what is to be in it;
  * `auBuildPath_builds_iff`  — it is, if and only if the branch is not the root and the directory is below its
                                root, or both are the root.
-/
import KernelPatches.Lib.CStr
import KernelPatches.Aufs.Finfo

namespace KernelPatches.Aufs.BuildPath

open KernelPatches.Lib

/-! ## Paths -/

/-- A component of a path. -/
structure Component where
  bytes : Name
  nonempty : bytes ≠ []
  noNul : 0 ∉ bytes

/-- A path relative to some directory: a slash before each component. -/
def relName (comps : List Component) : Name := comps.flatMap fun c => 47 :: c.bytes

/-- The path itself, which is a slash if it has no component. -/
def pathName (comps : List Component) : Name := if comps = [] then [47] else relName comps

/-- `struct path` -/
structure Path where
  dentry : Nat
  mnt : Nat

/-- `d_path`: where the path begins, and the buffer. -/
abbrev DPath := Path → List UInt8 → Nat → Except Int (Nat × List UInt8)

/-- **What `d_path` is relied on for**: it puts the path with its terminator at the end of the length it is given. -/
structure BuildsAtEnd (dPath : DPath) (comps : Path → List Component) : Prop where
  fits : ∀ path buf len, len ≤ buf.length → (pathName (comps path)).length < len →
    dPath path buf len = .ok (len - 1 - (pathName (comps path)).length,
      poke buf (len - 1 - (pathName (comps path)).length) (pathName (comps path) ++ [0]))
  long : ∀ path buf len, len ≤ buf.length → len ≤ (pathName (comps path)).length →
    ∃ err, dPath path buf len = .error err

/-- `au_build_path`, where `root` is the path of `sb->s_root`. -/
def auBuildPath (dPath : DPath) (hParent : Nat) (hRootpath root : Path) (buf : List UInt8) (len : Nat) :
    Reply (Nat × List UInt8) :=
  match dPath hRootpath buf len with
  | .error err => .err err
  | .ok (p, buf) =>
    match strlen buf p with
    | none => .oops
    | some n =>
      match dPath ⟨hParent, hRootpath.mnt⟩ buf len with
      | .error err => .err err
      | .ok (p, buf) =>
        let p := if n ≠ 1 then p + n else p
        match strlen buf p with
        | none => .oops
        | some k =>
          match dPath root buf (len - k) with
          | .error err => .err err
          | .ok (p, buf) =>
            if n ≠ 1 then
              match strlen buf p with
              | none => .oops
              | some k => .ok (p, buf.set (p + k) 47)
            else .ok (p, buf)

section

variable {comps rel : List Component}

theorem relName_append (comps rel : List Component) : relName (comps ++ rel) = relName comps ++ relName rel :=
  List.flatMap_append

theorem relName_noNul (comps : List Component) : 0 ∉ relName comps := by
  intro h
  obtain ⟨c, -, hc⟩ := List.mem_flatMap.mp h
  rcases List.mem_cons.mp hc with h0 | hc
  · exact absurd h0 (by decide)
  · exact c.noNul hc

theorem pathName_noNul (comps : List Component) : 0 ∉ pathName comps := by
  unfold pathName
  split
  · decide
  · exact relName_noNul comps

/-- Only the path of the root is one byte long. -/
theorem length_pathName_eq_one : (pathName comps).length = 1 ↔ comps = [] := by
  constructor
  · intro h
    by_contra hne
    unfold pathName at h
    rw [if_neg hne] at h
    obtain ⟨c, cs, rfl⟩ := List.exists_cons_of_ne_nil hne
    have hc : 0 < c.bytes.length := List.length_pos_iff.mpr c.nonempty
    have hlen : (relName (c :: cs)).length = c.bytes.length + 1 + (relName cs).length := by
      unfold relName
      rw [List.flatMap_cons, List.length_append, List.length_cons]
    omega
  · rintro rfl
    rfl

/-- What is left of the path of the directory: the relative path, or a slash if both are the root. -/
def restName (comps rel : List Component) : Name := if comps = [] then pathName rel else relName rel

theorem restName_noNul (comps rel : List Component) : 0 ∉ restName comps rel := by
  unfold restName
  split
  · exact pathName_noNul rel
  · exact relName_noNul rel

/-- The path of the directory, with the branch's as its first part. -/
theorem pathName_append : pathName (comps ++ rel) =
    (if (pathName comps).length ≠ 1 then pathName comps else []) ++ restName comps rel := by
  unfold restName
  by_cases h : comps = []
  · rw [if_neg (not_not.mpr (length_pathName_eq_one.mpr h)), if_pos h, h]
    rfl
  · rw [if_pos (fun h' => h (length_pathName_eq_one.mp h')), if_neg h]
    unfold pathName
    rw [if_neg h, if_neg (fun h' => h (List.append_eq_nil_iff.mp h').1), relName_append]

end

/-! ## What is in the page -/

section

variable {dPath : DPath} {comps : Path → List Component}

/-- **`d_path`**, for a path that fits. -/
theorem BuildsAtEnd.places (hd : BuildsAtEnd dPath comps) {path : Path} {buf : List UInt8} {len : Nat}
    (hlen : len ≤ buf.length) (hfits : (pathName (comps path)).length < len) :
    ∃ p buf', dPath path buf len = .ok (p, buf') ∧ buf'.length = buf.length ∧
      p + (pathName (comps path)).length + 1 = len ∧
      buf'.drop p = pathName (comps path) ++ 0 :: buf.drop len := by
  have hone : (pathName (comps path) ++ [0]).length = (pathName (comps path)).length + 1 := List.length_append
  refine ⟨_, _, hd.fits path buf len hlen hfits, length_poke (by omega), by omega, ?_⟩
  rw [drop_poke (by omega), hone, List.append_assoc]
  have hend : len - 1 - (pathName (comps path)).length + ((pathName (comps path)).length + 1) = len := by omega
  rw [hend]
  rfl

variable {hParent : Nat} {hRootpath root : Path} {buf : List UInt8} {rel : List Component}

/-- The first two calls, and the part that is skipped. -/
theorem auBuildPath_rest (hd : BuildsAtEnd dPath comps)
    (hbelow : comps ⟨hParent, hRootpath.mnt⟩ = comps hRootpath ++ rel)
    (hroot : (pathName (comps hRootpath)).length < buf.length)
    (hparent : (pathName (comps ⟨hParent, hRootpath.mnt⟩)).length < buf.length) :
    ∃ p₁ buf₁ p₂ buf₂ p, dPath hRootpath buf buf.length = .ok (p₁, buf₁) ∧
      strlen buf₁ p₁ = some (pathName (comps hRootpath)).length ∧
      dPath ⟨hParent, hRootpath.mnt⟩ buf₁ buf.length = .ok (p₂, buf₂) ∧
      (if (pathName (comps hRootpath)).length ≠ 1 then p₂ + (pathName (comps hRootpath)).length else p₂) = p ∧
      buf₂.length = buf.length ∧ p + (restName (comps hRootpath) rel).length + 1 = buf.length ∧
      buf₂.drop p = restName (comps hRootpath) rel ++ [0] := by
  obtain ⟨p₁, buf₁, hrun₁, hlen₁, hp₁, hdrop₁⟩ := hd.places (le_refl buf.length) hroot
  obtain ⟨p₂, buf₂, hrun₂, hlen₂, hp₂, hdrop₂⟩ := hd.places (le_of_eq hlen₁.symm) hparent
  have hrest := @pathName_append (comps hRootpath) rel
  rw [hbelow, hrest] at hp₂ hdrop₂
  rw [← hlen₁, List.drop_length] at hdrop₂
  refine ⟨p₁, buf₁, p₂, buf₂, _, hrun₁, strlen_eq hdrop₁ (pathName_noNul _), hrun₂, rfl, hlen₂.trans hlen₁, ?_, ?_⟩
  · rw [List.length_append] at hp₂
    split at hp₂
    · rename_i h
      rw [if_pos h]
      omega
    · rename_i h
      rw [if_neg h]
      rw [List.length_nil] at hp₂
      omega
  · split at hdrop₂
    · rename_i h
      rw [if_pos h, ← List.drop_drop, hdrop₂, List.append_assoc, List.drop_left]
    · rename_i h
      rw [if_neg h, hdrop₂]
      rfl

/-- **What is in the page in the end**, if there is room for the path of the mount point: behind it a slash in place
    of its terminator, if the branch is not the root, and what is left of the rest. -/
theorem auBuildPath_run (hd : BuildsAtEnd dPath comps)
    (hbelow : comps ⟨hParent, hRootpath.mnt⟩ = comps hRootpath ++ rel)
    (hroot : (pathName (comps hRootpath)).length < buf.length)
    (hparent : (pathName (comps ⟨hParent, hRootpath.mnt⟩)).length < buf.length)
    (hroom : (pathName (comps root)).length + (restName (comps hRootpath) rel).length < buf.length) :
    ∃ p buf', auBuildPath dPath hParent hRootpath root buf buf.length = .ok (p, buf') ∧ buf'.length = buf.length ∧
      buf'.drop p = pathName (comps root) ++ (if comps hRootpath = [] then 0 else 47) ::
        (restName (comps hRootpath) rel ++ [0]).tail := by
  obtain ⟨p₁, buf₁, p₂, buf₂, p, hrun₁, hn, hrun₂, hp, hlen₂, hpend, hdrop₂⟩ := auBuildPath_rest hd hbelow hroot hparent
  have hk := strlen_eq hdrop₂ (restName_noNul _ _)
  obtain ⟨p₃, buf₃, hrun₃, hlen₃, -, hdrop₃⟩ := @BuildsAtEnd.places dPath comps hd root buf₂
    (buf.length - (restName (comps hRootpath) rel).length) (by omega) (by omega)
  -- the terminator comes to lie on the first byte of the rest
  have hend : buf.length - (restName (comps hRootpath) rel).length = p + 1 := by omega
  rw [hend, ← List.drop_drop, hdrop₂, List.drop_one] at hdrop₃
  have hcall : auBuildPath dPath hParent hRootpath root buf buf.length =
      if (pathName (comps hRootpath)).length ≠ 1 then
        .ok (p₃, buf₃.set (p₃ + (pathName (comps root)).length) 47)
      else .ok (p₃, buf₃) := by
    unfold auBuildPath
    simp only [hrun₁, hn, hrun₂, hp, hk, hrun₃, strlen_eq hdrop₃ (pathName_noNul _)]
  rw [hcall]
  by_cases hnil : comps hRootpath = []
  · rw [if_neg (not_not.mpr (length_pathName_eq_one.mpr hnil)), if_pos hnil]
    exact ⟨p₃, buf₃, rfl, hlen₃.trans hlen₂, hdrop₃⟩
  · rw [if_pos (fun h => hnil (length_pathName_eq_one.mp h)), if_neg hnil]
    refine ⟨p₃, _, rfl, List.length_set.trans (hlen₃.trans hlen₂), ?_⟩
    rw [List.drop_set, if_neg (by omega), Nat.add_sub_cancel_left, hdrop₃, List.set_append_right _ _ (le_refl _),
      Nat.sub_self]
    rfl

end

/-! ## What is to be in it -/

/-- **What is to be in the page**: a string that is terminated in it, the path of the mount point followed by the
    path of the directory relative to the root of the branch. -/
def BuildsPath (dPath : DPath) (comps : Path → List Component) (hParent : Nat) (hRootpath root : Path)
    (buf : List UInt8) (rel : List Component) : Prop :=
  ∃ p buf', auBuildPath dPath hParent hRootpath root buf buf.length = .ok (p, buf') ∧ buf'.length = buf.length ∧
    cstr (buf'.drop p) = some (pathName (comps root) ++ relName rel)

section

variable {dPath : DPath} {comps : Path → List Component} {hParent : Nat} {hRootpath root : Path} {buf : List UInt8}
  {rel : List Component}

theorem relName_eq_nil : relName rel = [] ↔ rel = [] := by
  constructor
  · intro h
    by_contra hne
    obtain ⟨c, cs, rfl⟩ := List.exists_cons_of_ne_nil hne
    cases h
  · rintro rfl
    rfl

/-- A slash in the place of the first byte of the rest, which is one again if there is a rest, and the terminator
    if there is none. -/
theorem cstr_slash_rest (comps rel : List Component) :
    cstr (pathName comps ++ 47 :: (relName rel ++ [0]).tail) = some (pathName comps ++ relName rel) ↔ rel ≠ [] := by
  by_cases hrel : rel = []
  · -- the terminator is gone
    have hnone : cstr (pathName comps ++ 47 :: (relName rel ++ [0]).tail) = none := by
      apply cstr_eq_none
      rw [relName_eq_nil.mpr hrel]
      intro h
      rcases List.mem_append.mp h with h | h
      · exact pathName_noNul _ h
      · exact absurd h (by decide)
    rw [hnone]
    exact iff_of_false (fun h => by cases h) (not_not_intro hrel)
  · obtain ⟨c, cs, rfl⟩ := List.exists_cons_of_ne_nil hrel
    have hback : 47 :: (relName (c :: cs) ++ [0]).tail = relName (c :: cs) ++ [0] := rfl
    have hnoNul : 0 ∉ pathName comps ++ relName (c :: cs) := by
      intro h
      rcases List.mem_append.mp h with h | h
      · exact pathName_noNul _ h
      · exact relName_noNul _ h
    rw [hback, ← List.append_assoc, cstr_append hnoNul]
    exact iff_of_true rfl hrel

/-- There is no room for the path of the mount point. -/
theorem auBuildPath_long (hd : BuildsAtEnd dPath comps)
    (hbelow : comps ⟨hParent, hRootpath.mnt⟩ = comps hRootpath ++ rel)
    (hroot : (pathName (comps hRootpath)).length < buf.length)
    (hparent : (pathName (comps ⟨hParent, hRootpath.mnt⟩)).length < buf.length)
    (hlong : buf.length ≤ (pathName (comps root)).length + (restName (comps hRootpath) rel).length) :
    ∃ err, auBuildPath dPath hParent hRootpath root buf buf.length = .err err := by
  obtain ⟨p₁, buf₁, p₂, buf₂, p, hrun₁, hn, hrun₂, hp, hlen₂, hpend, hdrop₂⟩ := auBuildPath_rest hd hbelow hroot hparent
  have hk := strlen_eq hdrop₂ (restName_noNul _ _)
  obtain ⟨err, hrun₃⟩ := hd.long root buf₂ (buf.length - (restName (comps hRootpath) rel).length) (by omega) (by omega)
  refine ⟨err, ?_⟩
  unfold auBuildPath
  simp only [hrun₁, hn, hrun₂, hp, hk, hrun₃]

/-- **The path is built** if and only if the branch is not the root of its file system and the directory is below
    the root of the branch; or both are the root, and there is room for the slash that is put there first. -/
theorem auBuildPath_builds_iff (hd : BuildsAtEnd dPath comps)
    (hbelow : comps ⟨hParent, hRootpath.mnt⟩ = comps hRootpath ++ rel)
    (hroot : (pathName (comps hRootpath)).length < buf.length)
    (hparent : (pathName (comps ⟨hParent, hRootpath.mnt⟩)).length < buf.length)
    (hfits : (pathName (comps root) ++ relName rel).length < buf.length) :
    BuildsPath dPath comps hParent hRootpath root buf rel ↔
      (comps hRootpath ≠ [] ∧ rel ≠ []) ∨
      (comps hRootpath = [] ∧ rel = [] ∧ (pathName (comps root)).length + 1 < buf.length) := by
  rw [List.length_append] at hfits
  by_cases hlong : buf.length ≤ (pathName (comps root)).length + (restName (comps hRootpath) rel).length
  · -- only the slash of the root can be too much
    obtain ⟨err, hrun⟩ := @auBuildPath_long dPath comps hParent hRootpath root buf rel hd hbelow hroot hparent hlong
    constructor
    · rintro ⟨p, buf', hok, -⟩
      rw [hrun] at hok
      cases hok
    · rintro (⟨hc, -⟩ | ⟨hc, hrel, hlt⟩)
      · unfold restName at hlong
        rw [if_neg hc] at hlong
        omega
      · unfold restName at hlong
        rw [if_pos hc, length_pathName_eq_one.mpr hrel] at hlong
        omega
  · obtain ⟨p, buf', hrun, hlen, hdrop⟩ :=
      @auBuildPath_run dPath comps hParent hRootpath root buf rel hd hbelow hroot hparent (by omega)
    have hiff : BuildsPath dPath comps hParent hRootpath root buf rel ↔
        cstr (buf'.drop p) = some (pathName (comps root) ++ relName rel) := by
      constructor
      · rintro ⟨p', buf'', hrun', -, hstr⟩
        rw [hrun] at hrun'
        cases hrun'
        exact hstr
      · exact fun hstr => ⟨p, buf', hrun, hlen, hstr⟩
    rw [hiff, hdrop]
    unfold restName
    by_cases hc : comps hRootpath = []
    · -- the string ends with the path of the mount point
      rw [if_pos hc, cstr_append (pathName_noNul _), Option.some_inj]
      constructor
      · intro h
        have hrel : rel = [] := relName_eq_nil.mp (List.append_right_eq_self.mp h.symm)
        refine Or.inr ⟨hc, hrel, ?_⟩
        unfold restName at hlong
        rw [if_pos hc, length_pathName_eq_one.mpr hrel] at hlong
        omega
      · rintro (⟨hne, -⟩ | ⟨-, hrel, -⟩)
        · exact absurd hc hne
        · rw [relName_eq_nil.mpr hrel, List.append_nil]
    · rw [if_neg hc, if_neg hc]
      rw [cstr_slash_rest]
      constructor
      · exact fun hrel => Or.inl ⟨hc, hrel⟩
      · rintro (⟨-, hrel⟩ | ⟨hnil, -⟩)
        · exact hrel
        · exact absurd hnil hc

end

/-! ## Some paths -/

/-- A `d_path` that does what is documented. -/
def dPathOf (comps : Path → List Component) : DPath := fun path buf len =>
  let name := pathName (comps path)
  if name.length < len then .ok (len - 1 - name.length, poke buf (len - 1 - name.length) (name ++ [0]))
  else .error (- ENAMETOOLONG)

theorem dPathOf_buildsAtEnd (comps : Path → List Component) : BuildsAtEnd (dPathOf comps) comps where
  fits path buf len _ h := by
    unfold dPathOf
    exact if_pos h
  long path buf len _ h := by
    refine ⟨- ENAMETOOLONG, ?_⟩
    unfold dPathOf
    exact if_neg (not_lt.mpr h)

/-- `b`, a branch, and `d`, a directory. -/
def compB : Component := ⟨[98], by decide, by decide⟩

def compD : Component := ⟨[100], by decide, by decide⟩

/-- The dentries of a file system: 0 is its root, 1 is `/b`, 2 is `/b/d` and 3 is `/d`; 4 is the mount point `/b`. -/
def compsOf (path : Path) : List Component :=
  if path.dentry = 0 then [] else if path.dentry = 1 then [compB] else if path.dentry = 2 then [compB, compD]
  else if path.dentry = 3 then [compD] else [compB]

/-- A page of sixteen bytes. -/
def smallPage : List UInt8 := List.replicate 16 255

/-- The directory `/b/d` of the branch `/b`. -/
theorem builds_below : BuildsPath (dPathOf compsOf) compsOf 2 ⟨1, 0⟩ ⟨4, 1⟩ smallPage [compD] :=
  (auBuildPath_builds_iff (dPathOf_buildsAtEnd compsOf) rfl (by decide) (by decide) (by decide)).mpr
    (Or.inl ⟨List.cons_ne_nil _ _, List.cons_ne_nil _ _⟩)

/-- **The directory is lost**, for `/d` of the branch `/`: the path is just that of the mount point.  **And the end is
    lost**, for the root of the branch `/b`: the path is not terminated in the page. -/
theorem builds_neither :
    (∃ p buf', auBuildPath (dPathOf compsOf) 3 ⟨0, 0⟩ ⟨4, 1⟩ smallPage 16 = .ok (p, buf') ∧
      cstr (buf'.drop p) = some [47, 98]) ∧
    ¬ BuildsPath (dPathOf compsOf) compsOf 3 ⟨0, 0⟩ ⟨4, 1⟩ smallPage [compD] ∧
    (∃ p buf', auBuildPath (dPathOf compsOf) 1 ⟨1, 0⟩ ⟨4, 1⟩ smallPage 16 = .ok (p, buf') ∧
      cstr (buf'.drop p) = none) ∧
    ¬ BuildsPath (dPathOf compsOf) compsOf 1 ⟨1, 0⟩ ⟨4, 1⟩ smallPage [] := by
  have hlost : auBuildPath (dPathOf compsOf) 3 ⟨0, 0⟩ ⟨4, 1⟩ smallPage 16 =
      .ok (11, List.replicate 11 255 ++ [47, 98, 0, 100, 0]) := rfl
  have hopen : auBuildPath (dPathOf compsOf) 1 ⟨1, 0⟩ ⟨4, 1⟩ smallPage 16 =
      .ok (13, List.replicate 13 255 ++ [47, 98, 47]) := rfl
  refine ⟨⟨_, _, hlost, rfl⟩, ?_, ⟨_, _, hopen, rfl⟩, ?_⟩
  · rintro ⟨p, buf', hrun, -, hstr⟩
    have hrun : auBuildPath (dPathOf compsOf) 3 ⟨0, 0⟩ ⟨4, 1⟩ smallPage 16 = .ok (p, buf') := hrun
    rw [hlost] at hrun
    cases hrun
    exact absurd hstr (by decide)
  · rintro ⟨p, buf', hrun, -, hstr⟩
    have hrun : auBuildPath (dPathOf compsOf) 1 ⟨1, 0⟩ ⟨4, 1⟩ smallPage 16 = .ok (p, buf') := hrun
    rw [hopen] at hrun
    cases hrun
    exact absurd hstr (by decide)

end KernelPatches.Aufs.BuildPath
