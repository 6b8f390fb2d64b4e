/-
  aufs: the branch in the cache of the mfs policies.

  `au_wbr_create_mfs` keeps the branch with the most free space by its index.  Branches are added and
  deleted meanwhile, and nothing tells the cache: an index that has not expired is passed to `au_sbr`
  whatever stands there now.

  Every branch gets a serial number when it is added, and a `History` goes along with a run: the serial
  numbers of the branches, the one of the branch that was chosen, and where the additions and deletions
  since then have taken it (`place`).

  * `consults`                 — the policies that get as far as the cache;
  * `Tracks`                   — the invariant: the chosen branch is where `place` says, or deleted;
  * `run_cached_iff`           — the cached index is that of the chosen branch, or of a branch that makes
                                 for a new choice, iff the chosen branch is still where it was or the
                                 branch that is there now is read-only;
  * `deleted_below`            — two branches, the lower of which is chosen and deleted.
-/
import KernelPatches.Aufs.WbrPolicy
import KernelPatches.Aufs.BranchArrays

namespace KernelPatches.Aufs

open KernelPatches.Lib

/-! ## Reading the cache -/

section

variable {A : Arch} {env : WbrEnv} {cfg : BrConfig} {fs : LowerFs} {s s' : PolicySb}
variable {dentry parent : Dinfo}

/-- The policies that choose by free space. -/
def WbrCreate.byFreeSpace : WbrCreate → Bool
  | .tdp | .rr => false
  | .mfs | .mfsv | .mfsrr | .mfsrrv | .pmfs | .pmfsv => true

/-- `r` is an index below zero: an error, but not the end. -/
def isErr (r : Except BrTrap Int) : Bool :=
  match r with
  | .ok err => decide (err < 0)
  | .error _ => false

/-- A creation gets as far as the cache: no exception applies, and with pmfs the parent is on several
    branches. -/
def consults (env : WbrEnv) (s : PolicySb) (dentry parent : Dinfo) : Bool :=
  match s.wbrCreate with
  | .tdp | .rr => false
  | .mfs | .mfsv | .mfsrr | .mfsrrv => isErr (auWbrCreateExp env s.union dentry parent)
  | .pmfs | .pmfsv =>
    (match auWbrCreateTdp env s.union dentry parent with
      | .ok err => decide (0 ≤ err)
      | .error _ => false) &&
      parent.diBstart != auDbtaildir parent && isErr (auWbrCreateExp env s.union dentry parent)

/-- The branch in the cache is not used: there is none, it has expired, or it is read-only. -/
def choosesAnew (A : Arch) (env : WbrEnv) (s : PolicySb) : Bool :=
  match cachedBindex A env s.wbrMfs with
  | none => true
  | some bindex =>
    match sbrRdonly env s.union bindex with
    | .ok rdonly => rdonly
    | .error _ => false

/-- What a call leaves of the branches and of the cache. -/
def SameChoice (s s' : PolicySb) : Prop :=
  s'.union = s.union ∧ s'.wbrMfs = s.wbrMfs ∧ s'.wbrCreate = s.wbrCreate

theorem SameChoice.refl (s : PolicySb) : SameChoice s s := ⟨rfl, rfl, rfl⟩

theorem SameChoice.trans {s₁ s₂ s₃ : PolicySb} (h : SameChoice s₁ s₂) (h' : SameChoice s₂ s₃) :
    SameChoice s₁ s₃ :=
  ⟨h'.1.trans h.1, h'.2.1.trans h.2.1, h'.2.2.trans h.2.2⟩

/-- A creation uses the cache as it is, or makes a new choice. -/
theorem createMfs_cases {err : Int} (h : createMfs A env s = .ok (err, s')) :
    (choosesAnew A env s = false ∧ s' = s) ∨ (choosesAnew A env s = true ∧ auMfs env s = .ok s') := by
  rw [createMfs] at h
  rw [choosesAnew]
  cases hc : cachedBindex A env s.wbrMfs with
  | none =>
    rw [hc] at h
    cases hm : auMfs env s with
    | error e =>
      rw [hm] at h
      cases h
    | ok s₁ =>
      rw [hm] at h
      cases h
      exact Or.inr ⟨rfl, rfl⟩
  | some bindex =>
    rw [hc] at h
    cases hr : sbrRdonly env s.union bindex with
    | error e =>
      simp only [hr] at h
      cases h
    | ok rdonly =>
      simp only [hr] at h
      cases rdonly with
      | false =>
        cases h
        refine Or.inl ⟨?_, rfl⟩
        simp only [hr]
      | true =>
        cases hm : auMfs env s with
        | error e =>
          rw [hm] at h
          cases h
        | ok s₁ =>
          rw [hm] at h
          cases h
          refine Or.inr ⟨?_, rfl⟩
          simp only [hr]

theorem auWbrCreateRr_same {isdir : Bool} {err : Int}
    (h : auWbrCreateRr env s dentry parent isdir = .ok (err, s')) : SameChoice s s' := by
  rw [auWbrCreateRr] at h
  cases he : auWbrCreateExp env s.union dentry parent with
  | error e =>
    rw [he] at h
    cases h
  | ok exp =>
    rw [he] at h
    dsimp only at h
    split at h
    · cases h
      exact SameChoice.refl s
    · cases hr : createRrFrom env s.union isdir (s.union.siBend + 1).toNat s.wbrRrNext with
      | error e =>
        rw [hr] at h
        cases h
      | ok r =>
        rw [hr] at h
        cases h
        exact ⟨rfl, rfl, rfl⟩

/-- `au_wbr_create_mfs` gets as far as the cache unless the exception applies. -/
theorem auWbrCreateMfs_cases {err : Int} (h : auWbrCreateMfs A env s dentry parent = .ok (err, s')) :
    (isErr (auWbrCreateExp env s.union dentry parent) = false ∧ s' = s) ∨
      (isErr (auWbrCreateExp env s.union dentry parent) = true ∧
        createMfs A env s = .ok (err, s')) := by
  rw [auWbrCreateMfs] at h
  cases he : auWbrCreateExp env s.union dentry parent with
  | error e =>
    rw [he] at h
    cases h
  | ok exp =>
    rw [he] at h
    dsimp only at h
    split at h
    · rename_i hexp
      cases h
      exact Or.inl ⟨decide_eq_false (by omega), rfl⟩
    · rename_i hexp
      exact Or.inr ⟨decide_eq_true (by omega), h⟩

theorem auWbrCreateMfsrr_cases {isdir : Bool} {err : Int}
    (h : auWbrCreateMfsrr A env s dentry parent isdir = .ok (err, s')) :
    ∃ e₁ s₁, auWbrCreateMfs A env s dentry parent = .ok (e₁, s₁) ∧ SameChoice s₁ s' := by
  rw [auWbrCreateMfsrr] at h
  cases hm : auWbrCreateMfs A env s dentry parent with
  | error e =>
    rw [hm] at h
    cases h
  | ok r =>
    obtain ⟨e₁, s₁⟩ := r
    rw [hm] at h
    dsimp only at h
    refine ⟨e₁, s₁, rfl, ?_⟩
    split at h
    · exact auWbrCreateRr_same h
    · cases h
      exact SameChoice.refl s'

theorem auWbrCreatePmfs_cases {err : Int} (h : auWbrCreatePmfs A env s dentry parent = .ok (err, s')) :
    ∃ e, auWbrCreateTdp env s.union dentry parent = .ok e ∧
      ((e < 0 ∨ parent.diBstart = auDbtaildir parent) ∧ s' = s ∨
        (0 ≤ e ∧ parent.diBstart ≠ auDbtaildir parent) ∧
          ∃ e₁, auWbrCreateMfs A env s dentry parent = .ok (e₁, s')) := by
  rw [auWbrCreatePmfs] at h
  cases ht : auWbrCreateTdp env s.union dentry parent with
  | error e =>
    rw [ht] at h
    cases h
  | ok e =>
    rw [ht] at h
    dsimp only at h
    refine ⟨e, rfl, ?_⟩
    split at h
    · rename_i hout
      cases h
      exact Or.inl ⟨hout, rfl⟩
    · rename_i hin
      right
      refine ⟨by omega, ?_⟩
      cases hm : auWbrCreateMfs A env s dentry parent with
      | error e =>
        rw [hm] at h
        cases h
      | ok r =>
        obtain ⟨e₁, s₁⟩ := r
        rw [hm] at h
        dsimp only at h
        split at h
        · cases h
          exact ⟨e₁, rfl⟩
        · cases hb : wbrBytes s₁.union e.toNat with
          | error t =>
            rw [hb] at h
            cases h
          | ok b =>
            simp only [hb] at h
            split at h
            · cases h
            · cases h
              exact ⟨e₁, rfl⟩

/-- **What a creation does to the cache**: nothing, if it does not get there; otherwise what
    `au_wbr_create_mfs` does. -/
theorem auWbrCreate_cases {isdir : Bool} {err : Int}
    (h : auWbrCreate A env s dentry parent isdir = .ok (err, s')) :
    (consults env s dentry parent = false ∧ SameChoice s s') ∨
      (consults env s dentry parent = true ∧
        ∃ e₁ s₁, createMfs A env s = .ok (e₁, s₁) ∧ SameChoice s₁ s') := by
  -- The policies that go by `au_wbr_create_mfs` as it is.
  have hmfs : ∀ {e₁ : Int} {s₁ : PolicySb}, auWbrCreateMfs A env s dentry parent = .ok (e₁, s₁) →
      SameChoice s₁ s' → consults env s dentry parent = isErr (auWbrCreateExp env s.union dentry parent) →
      (consults env s dentry parent = false ∧ SameChoice s s') ∨
        (consults env s dentry parent = true ∧
          ∃ e₁ s₁, createMfs A env s = .ok (e₁, s₁) ∧ SameChoice s₁ s') := by
    intro e₁ s₁ hm hsame hcons
    rw [hcons]
    rcases auWbrCreateMfs_cases hm with ⟨hno, rfl⟩ | ⟨hyes, hc⟩
    · exact Or.inl ⟨hno, hsame⟩
    · exact Or.inr ⟨hyes, e₁, s₁, hc, hsame⟩
  have hpmfs : auWbrCreatePmfs A env s dentry parent = .ok (err, s') →
      (s.wbrCreate = .pmfs ∨ s.wbrCreate = .pmfsv) →
      (consults env s dentry parent = false ∧ SameChoice s s') ∨
        (consults env s dentry parent = true ∧
          ∃ e₁ s₁, createMfs A env s = .ok (e₁, s₁) ∧ SameChoice s₁ s') := by
    intro hp hcreate
    obtain ⟨e, ht, hcase⟩ := auWbrCreatePmfs_cases hp
    have hcons : consults env s dentry parent = (decide (0 ≤ e) &&
        parent.diBstart != auDbtaildir parent && isErr (auWbrCreateExp env s.union dentry parent)) := by
      rcases hcreate with hcreate | hcreate <;> simp only [consults, hcreate, ht]
    rcases hcase with ⟨hout, rfl⟩ | ⟨⟨he, hne⟩, e₁, hm⟩
    · left
      refine ⟨?_, SameChoice.refl s'⟩
      rw [hcons]
      rcases hout with hneg | heq
      · rw [decide_eq_false (by omega)]
        rfl
      · rw [heq, bne_self_eq_false, Bool.and_false]
        rfl
    · apply hmfs hm (SameChoice.refl s')
      rw [hcons, decide_eq_true he, bne_iff_ne.mpr hne]
      rfl
  rw [auWbrCreate] at h
  cases hcreate : s.wbrCreate with
  | tdp =>
    simp only [hcreate] at h
    left
    refine ⟨by simp only [consults, hcreate], ?_⟩
    split at h
    · cases h
    · cases h
      exact SameChoice.refl s
  | rr =>
    simp only [hcreate] at h
    exact Or.inl ⟨by simp only [consults, hcreate], auWbrCreateRr_same h⟩
  | mfs | mfsv =>
    simp only [hcreate] at h
    exact hmfs h (SameChoice.refl s') (by simp only [consults, hcreate])
  | mfsrr | mfsrrv =>
    simp only [hcreate] at h
    obtain ⟨e₁, s₁, hm, hsame⟩ := auWbrCreateMfsrr_cases h
    exact hmfs hm hsame (by simp only [consults, hcreate])
  | pmfs =>
    simp only [hcreate] at h
    exact hpmfs h (Or.inl hcreate)
  | pmfsv =>
    simp only [hcreate] at h
    exact hpmfs h (Or.inr hcreate)

end

/-! ## A new choice -/

section

variable {env : WbrEnv} {cfg : BrConfig} {L : List Member}

/-- The free space of a branch is kept with it, and changes nothing else. -/
theorem InLine.setBytes {s : UnionSb} (h : InLine cfg s L) {i : Nat} {m : Member}
    (hm : L[i]? = some m) (w : Option Nat) :
    ∃ L', InLine cfg { s with siBranch := s.siBranch.set i (some { m.branch with brWbr := w }) } L' ∧
      L'.length = L.length :=
  ⟨_, h.setBranch hm rfl rfl, List.length_set⟩

/-- What `au_mfs` leaves: the branches, and an index of one of them or an error in the cache. -/
structure Chose (cfg : BrConfig) (s s' : PolicySb) (L' : List Member) : Prop where
  inLine : InLine cfg s'.union L'
  wbrCreate : s'.wbrCreate = s.wbrCreate
  mfsBindex : s'.wbrMfs.mfsBindex < 0 ∨ s'.wbrMfs.mfsBindex.toNat < L'.length

theorem auMfsFrom_spec {n bindex bavail : Nat} {s s' : PolicySb} {b : Nat}
    (h : InLine cfg s.union L) (hn : bindex + n = L.length)
    (hindex : s.wbrMfs.mfsBindex < 0 ∨ s.wbrMfs.mfsBindex.toNat < L.length)
    (hfrom : auMfsFrom env n bindex bavail s = .ok (b, s')) :
    ∃ L', Chose cfg s s' L' ∧ L'.length = L.length := by
  induction n generalizing bindex bavail s L with
  | zero =>
    cases hfrom
    exact ⟨L, ⟨h, rfl, hindex⟩, rfl⟩
  | succ n ih =>
    obtain ⟨m, hm, hsbr⟩ := h.sbr (i := bindex) (by omega)
    rw [auMfsFrom, hsbr] at hfrom
    dsimp only at hfrom
    split at hfrom
    · exact ih h (by omega) hindex hfrom
    · split at hfrom
      · exact ih h (by omega) hindex hfrom
      · split at hfrom
        · exact ih h (by omega) hindex hfrom
        · rename_i fBavail fBsize _
          obtain ⟨L₁, h₁, hlen⟩ := h.setBytes hm (m.branch.brWbr.map fun _ => fBavail * fBsize % 2 ^ 64)
          split at hfrom
          · obtain ⟨L', hchose, hlen'⟩ := ih h₁ (by omega) (Or.inr (by dsimp only; omega)) hfrom
            exact ⟨L', ⟨hchose.inLine, hchose.wbrCreate, hchose.mfsBindex⟩, hlen'.trans hlen⟩
          · obtain ⟨L', hchose, hlen'⟩ := ih h₁ (by omega) (by rwa [hlen]) hfrom
            exact ⟨L', ⟨hchose.inLine, hchose.wbrCreate, hchose.mfsBindex⟩, hlen'.trans hlen⟩

theorem auMfs_spec {s s' : PolicySb} (h : InLine cfg s.union L) (hmfs : auMfs env s = .ok s') :
    ∃ L', Chose cfg s s' L' ∧ L'.length = L.length := by
  rw [auMfs] at hmfs
  split at hmfs
  · cases hmfs
  · rename_i b s₁ hfrom
    have hn : 0 + (s.union.siBend + 1).toNat = L.length := by
      rw [h.siBend]
      omega
    obtain ⟨L', hchose, hlen⟩ := auMfsFrom_spec
      (s := { s with wbrMfs := { s.wbrMfs with mfsBindex := -EROFS, mfsrrBytes := 0 } }) h hn
      (Or.inl (show -EROFS < 0 by decide)) hfrom
    cases hmfs
    exact ⟨L', ⟨hchose.inLine, hchose.wbrCreate, hchose.mfsBindex⟩, hlen⟩

end

/-! ## Histories -/

/-- The serial numbers of the branches, the next one, the one of the branch that was chosen last, and
    where it has been taken since. -/
structure History where
  serials : List Nat
  next : Nat
  chosen : Option Nat
  place : Option Nat
  deriving DecidableEq, Repr

/-- An operation on the branches has taken `u` to `u'`. -/
def History.branch (h : History) (u u' : UnionSb) : BrEvent → History
  | .add add _ _ _ =>
    if u'.siBend = u.siBend + 1 then
      { h with
        serials := h.serials.insertIdx add.bindex.toNat h.next
        next := h.next + 1
        place := h.place.map (afterInsert add.bindex.toNat) }
    else h
  | .del hRoot _ _ _ =>
    if u'.siBend = u.siBend - 1 then
      { h with
        serials := h.serials.eraseIdx (auFindDbindex u hRoot).toNat
        place := h.place.bind (afterErase (auFindDbindex u hRoot).toNat) }
    else h

/-- A new choice has been made. -/
def History.choose (h : History) (mfs : WbrMfs) : History :=
  if mfs.mfsBindex < 0 then { h with chosen := none, place := none }
  else { h with chosen := h.serials[mfs.mfsBindex.toNat]?, place := some mfs.mfsBindex.toNat }

/-- Additions and deletions, changes of the policy, and creations. -/
inductive PolicyEvent where
  | branch (e : BrEvent)
  | policy (env : WbrEnv) (create : WbrCreate) (expire watermark : Nat)
  | create (env : WbrEnv) (dentry parent : Dinfo) (isdir : Bool)

/-- One step of the super block, and of the history that goes along with it. -/
inductive PolicyStep (A : Arch) (cfg : BrConfig) (fs : LowerFs) :
    PolicySb × History → PolicyEvent → PolicySb × History → Prop
  | branch {s : PolicySb} {h : History} {e : BrEvent} {err : Int} {u : UnionSb}
      (hop : brOp cfg fs s.union e = .ok (err, u)) :
      PolicyStep A cfg fs (s, h) (.branch e) ({ s with union := u }, h.branch s.union u e)
  | policy {s s' : PolicySb} {h : History} {env : WbrEnv} {create : WbrCreate} {expire watermark : Nat}
      (hset : setWbrCreate env s create expire watermark = .ok s') :
      PolicyStep A cfg fs (s, h) (.policy env create expire watermark) (s', h)
  | create {s s' : PolicySb} {h : History} {env : WbrEnv} {dentry parent : Dinfo} {isdir : Bool}
      {err : Int} (hcreate : auWbrCreate A env s dentry parent isdir = .ok (err, s')) :
      PolicyStep A cfg fs (s, h) (.create env dentry parent isdir)
        (s', if consults env s dentry parent && choosesAnew A env s then h.choose s'.wbrMfs else h)

/-- The super block before the mount: AuWbrCreate_Def, and whatever is in `si_wbr_mfs`. -/
def startPolicy (mfs : WbrMfs) (next : Int) : PolicySb × History :=
  (⟨unmounted, .tdp, mfs, next⟩, ⟨[], 0, none, none⟩)

/-- **The invariant.**  There is a serial number for each branch, and as long as the cache counts, the
    chosen branch is where it has been taken. -/
structure Tracks (cfg : BrConfig) (s : PolicySb) (h : History) : Prop where
  members : ∃ L, InLine cfg s.union L ∧ L.length = h.serials.length
  nodup : h.serials.Nodup
  lt_next : ∀ n ∈ h.serials, n < h.next
  chosen : s.wbrCreate.byFreeSpace = true → 0 ≤ s.wbrMfs.mfsBindex →
    ∃ c, h.chosen = some c ∧ c < h.next ∧
      match h.place with
      | some p => h.serials[p]? = some c
      | none => c ∉ h.serials

section

variable {A : Arch} {cfg : BrConfig} {fs : LowerFs} {s s' : PolicySb} {h : History}

theorem tracks_start (mfs : WbrMfs) (next : Int) :
    Tracks cfg (startPolicy mfs next).1 (startPolicy mfs next).2 where
  members := ⟨[], inLine_unmounted, rfl⟩
  nodup := List.nodup_nil
  lt_next n hn := by cases hn
  chosen hc := by cases hc

/-- The chosen branch is at an index iff it has been taken there. -/
theorem Tracks.place_iff (ht : Tracks cfg s h) (hfree : s.wbrCreate.byFreeSpace = true)
    (hpos : 0 ≤ s.wbrMfs.mfsBindex) (i : Nat) :
    ((i : Int) ≤ s.union.siBend ∧ h.serials[i]? = h.chosen) ↔ h.place = some i := by
  obtain ⟨L, hL, hlen⟩ := ht.members
  obtain ⟨c, hc, -, hplace⟩ := ht.chosen hfree hpos
  rw [hc]
  cases hp : h.place with
  | none =>
    rw [hp] at hplace
    constructor
    · rintro ⟨-, hi⟩
      exact absurd (List.mem_of_getElem? hi) hplace
    · intro hcontra
      cases hcontra
  | some p =>
    rw [hp] at hplace
    have hlt : p < h.serials.length := (List.getElem?_eq_some_iff.mp hplace).1
    constructor
    · rintro ⟨-, hi⟩
      have hpi : p = i := (List.getElem?_inj hlt ht.nodup).mp (hplace.trans hi.symm)
      rw [hpi]
    · intro hpi
      obtain rfl := Option.some.inj hpi
      refine ⟨?_, hplace⟩
      rw [hL.siBend, hlen]
      omega

/-- A branch is added at `k`. -/
theorem Tracks.insert (ht : Tracks cfg s h) {u : UnionSb} {L' : List Member} {k : Nat}
    (hk : k ≤ h.serials.length) (hL' : InLine cfg u L') (hlen : L'.length = h.serials.length + 1) :
    Tracks cfg { s with union := u } { h with
      serials := h.serials.insertIdx k h.next
      next := h.next + 1
      place := h.place.map (afterInsert k) } := by
  have hmem : ∀ n, n ∈ h.serials.insertIdx k h.next ↔ n = h.next ∨ n ∈ h.serials := fun n =>
    List.mem_insertIdx hk
  have hnew : h.next ∉ h.serials := fun hc => Nat.lt_irrefl _ (ht.lt_next _ hc)
  constructor
  · exact ⟨L', hL', hlen.trans (List.length_insertIdx_of_le_length hk h.next).symm⟩
  · exact (List.perm_insertIdx _ _ hk).nodup_iff.mpr (List.nodup_cons.mpr ⟨hnew, ht.nodup⟩)
  · intro n hn
    rcases (hmem n).mp hn with rfl | hn
    · exact Nat.lt_succ_self _
    · exact Nat.lt_succ_of_lt (ht.lt_next n hn)
  · intro hfree hpos
    obtain ⟨c, hc, hlt, hplace⟩ := ht.chosen hfree hpos
    refine ⟨c, hc, Nat.lt_succ_of_lt hlt, ?_⟩
    cases hp : h.place with
    | none =>
      rw [hp] at hplace
      show c ∉ h.serials.insertIdx k h.next
      rw [hmem]
      rintro (rfl | hc)
      · exact Nat.lt_irrefl _ hlt
      · exact hplace hc
    | some p =>
      rw [hp] at hplace
      show (h.serials.insertIdx k h.next)[afterInsert k p]? = some c
      rw [getElem?_afterInsert]
      exact hplace

/-- The branch at `k` is deleted. -/
theorem Tracks.erase (ht : Tracks cfg s h) {u : UnionSb} {L' : List Member} {k : Nat}
    (hk : k < h.serials.length) (hL' : InLine cfg u L') (hlen : L'.length = h.serials.length - 1) :
    Tracks cfg { s with union := u } { h with
      serials := h.serials.eraseIdx k
      place := h.place.bind (afterErase k) } := by
  constructor
  · exact ⟨L', hL', hlen.trans (List.length_eraseIdx_of_lt hk).symm⟩
  · exact ht.nodup.eraseIdx k
  · intro n hn
    exact ht.lt_next n (List.mem_of_mem_eraseIdx hn)
  · intro hfree hpos
    obtain ⟨c, hc, hlt, hplace⟩ := ht.chosen hfree hpos
    refine ⟨c, hc, hlt, ?_⟩
    cases hp : h.place with
    | none =>
      rw [hp] at hplace
      exact fun hmem => hplace (List.mem_of_mem_eraseIdx hmem)
    | some p =>
      rw [hp] at hplace
      rw [Option.bind_some]
      cases hq : afterErase k p with
      | none =>
        -- It is the chosen branch that is deleted.
        have hpk : p = k := by
          rw [afterErase] at hq
          by_contra hne
          rw [if_neg hne] at hq
          split at hq <;> cases hq
        intro hmem
        obtain ⟨i, hi, hci⟩ := List.mem_eraseIdx_iff_getElem?.mp hmem
        have hlt := (List.getElem?_eq_some_iff.mp hci).1
        exact hi (((List.getElem?_inj hlt ht.nodup).mp (hci.trans hplace.symm)).trans hpk)
      | some q =>
        show (h.serials.eraseIdx k)[q]? = some c
        rw [getElem?_afterErase hq]
        exact hplace

theorem Tracks.branch (ht : Tracks cfg s h) {e : BrEvent} {err : Int} {u : UnionSb}
    (hop : brOp cfg fs s.union e = .ok (err, u)) :
    Tracks cfg { s with union := u } (h.branch s.union u e) := by
  obtain ⟨L, hL, hlen⟩ := ht.members
  obtain ⟨err', u', hop', L', hmove, hL'⟩ := brOp_spec fs hL e
  obtain ⟨rfl, rfl⟩ := Prod.mk.inj (Except.ok.inj (hop'.symm.trans hop))
  have hbend := hL.siBend
  have hbend' := hL'.siBend
  cases hmove with
  | @added add env mem remount k m hk hbindex hroot hperm =>
    have hlen' : (L.insertIdx k m).length = L.length + 1 := List.length_insertIdx_of_le_length hk m
    rw [hlen'] at hbend'
    have hstep : u'.siBend = s.union.siBend + 1 := by omega
    rw [History.branch, if_pos hstep, hbindex, Int.toNat_natCast]
    exact ht.insert (hk.trans_eq hlen) hL' (by rw [hlen', hlen])
  | @deleted hRoot brCount busy remount k m hm hroot =>
    have hk : k < L.length := (List.getElem?_eq_some_iff.mp hm).1
    have hlen' : (L.eraseIdx k).length = L.length - 1 := List.length_eraseIdx_of_lt hk
    rw [hlen'] at hbend'
    have hstep : u'.siBend = s.union.siBend - 1 := by omega
    have hindex : (auFindDbindex s.union hRoot).toNat < h.serials.length := by
      rcases auFindDbindex_spec hL hRoot with hnone | ⟨j, m', hj, hm', -⟩
      · rw [hnone]
        show 0 < h.serials.length
        omega
      · have := (List.getElem?_eq_some_iff.mp hm').1
        omega
    rw [History.branch, if_pos hstep]
    exact ht.erase hindex hL' (by rw [hlen', hlen])
  | kept _ =>
    have hsame : h.branch s.union u' e = h := by
      cases e with
      | add add env mem remount => exact if_neg (by omega)
      | del hRoot brCount busy remount => exact if_neg (by omega)
    rw [hsame]
    exact { ht with members := ⟨L, hL', hlen⟩ }

/-- A change of the policy to one that counts on the cache empties it. -/
theorem Tracks.policy (ht : Tracks cfg s h) {env : WbrEnv} {create : WbrCreate}
    {expire watermark : Nat} (hset : setWbrCreate env s create expire watermark = .ok s') :
    Tracks cfg s' h := by
  have hkey : s'.union = s.union ∧
      (s'.wbrCreate.byFreeSpace = true → s'.wbrMfs.mfsBindex = -EROFS) := by
    have hrr : ∀ {s₁ s₂ : PolicySb}, auWbrCreateInitRr env s₁ = .ok s₂ → s₂.union = s₁.union ∧
        s₂.wbrCreate = s₁.wbrCreate ∧ s₂.wbrMfs = s₁.wbrMfs := by
      intro s₁ s₂ hinit
      rw [auWbrCreateInitRr] at hinit
      split at hinit <;> cases hinit
      exact ⟨rfl, rfl, rfl⟩
    cases create with
    | tdp =>
      cases hset
      exact ⟨rfl, fun hc => by cases hc⟩
    | rr =>
      obtain ⟨hu, hc, -⟩ := hrr hset
      refine ⟨hu, fun hfree => ?_⟩
      rw [hc] at hfree
      cases hfree
    | mfs | mfsv | pmfs | pmfsv =>
      cases hset
      exact ⟨rfl, fun _ => rfl⟩
    | mfsrr | mfsrrv =>
      obtain ⟨hu, -, hm⟩ := hrr hset
      refine ⟨hu, fun _ => ?_⟩
      rw [hm]
      rfl
  constructor
  · rw [hkey.1]
    exact ht.members
  · exact ht.nodup
  · exact ht.lt_next
  · intro hfree hpos
    rw [hkey.2 hfree] at hpos
    exact absurd hpos (by decide)

theorem Tracks.same (ht : Tracks cfg s h) (hsame : SameChoice s s') : Tracks cfg s' h where
  members := by
    rw [hsame.1]
    exact ht.members
  nodup := ht.nodup
  lt_next := ht.lt_next
  chosen := by
    rw [hsame.2.1, hsame.2.2]
    exact ht.chosen

theorem Tracks.create (ht : Tracks cfg s h) {env : WbrEnv} {dentry parent : Dinfo} {isdir : Bool}
    {err : Int} (hcreate : auWbrCreate A env s dentry parent isdir = .ok (err, s')) :
    Tracks cfg s' (if consults env s dentry parent && choosesAnew A env s then h.choose s'.wbrMfs
      else h) := by
  rcases auWbrCreate_cases hcreate with ⟨hno, hsame⟩ | ⟨hyes, e₁, s₁, hmfs, hsame⟩
  · rw [hno, Bool.false_and, if_neg Bool.false_ne_true]
    exact ht.same hsame
  · rw [hyes, Bool.true_and]
    rcases createMfs_cases hmfs with ⟨hold, rfl⟩ | ⟨hnew, hau⟩
    · rw [hold, if_neg Bool.false_ne_true]
      exact ht.same hsame
    · rw [hnew, if_pos rfl, hsame.2.1]
      apply Tracks.same _ hsame
      obtain ⟨L, hL, hlen⟩ := ht.members
      obtain ⟨L', hchose, hlen'⟩ := auMfs_spec hL hau
      rw [History.choose]
      split
      · rename_i hneg
        exact ⟨⟨L', hchose.inLine, hlen'.trans hlen⟩, ht.nodup, ht.lt_next,
          fun _ hpos => absurd hpos (by omega)⟩
      · rename_i hpos
        have hlt : s₁.wbrMfs.mfsBindex.toNat < h.serials.length := by
          have := hchose.mfsBindex
          omega
        refine ⟨⟨L', hchose.inLine, hlen'.trans hlen⟩, ht.nodup, ht.lt_next, fun _ _ => ?_⟩
        exact ⟨_, List.getElem?_eq_getElem hlt, ht.lt_next _ (List.getElem_mem hlt),
          List.getElem?_eq_getElem hlt⟩

theorem run_tracks {es : List PolicyEvent} {mfs : WbrMfs} {next : Int}
    (hrun : Run (PolicyStep A cfg fs) (startPolicy mfs next) es (s, h)) : Tracks cfg s h := by
  refine hrun.inv (I := fun p => Tracks cfg p.1 p.2) (tracks_start mfs next) ?_
  intro p e p' ht hstep
  cases hstep with
  | branch hop => exact ht.branch hop
  | policy hset => exact ht.policy hset
  | create hcreate => exact ht.create hcreate

/-- **When the cached index can be used.**  At every creation of a run that takes an index from the
    cache, the index is that of the branch that was chosen, or of a branch that makes for a new choice,
    iff the additions and deletions since then have left the chosen branch where it was, or the index is
    that of a branch still, and that branch is read-only. -/
theorem run_cached_iff {es : List PolicyEvent} {mfs : WbrMfs} {next : Int}
    (hrun : Run (PolicyStep A cfg fs) (startPolicy mfs next) es (s, h)) {env : WbrEnv}
    {dentry parent : Dinfo} {i : Nat} (hcons : consults env s dentry parent = true)
    (hcached : cachedBindex A env s.wbrMfs = some i) :
    ((i : Int) ≤ s.union.siBend ∧ (h.serials[i]? = h.chosen ∨ choosesAnew A env s = true)) ↔
      (h.place = some i ∨ (i : Int) ≤ s.union.siBend ∧ sbrRdonly env s.union i = .ok true) := by
  have ht := run_tracks hrun
  have hpos : 0 ≤ s.wbrMfs.mfsBindex := by
    rw [cachedBindex] at hcached
    by_contra hneg
    rw [if_pos (by rw [decide_eq_true (by omega), Bool.or_true])] at hcached
    cases hcached
  have hfree : s.wbrCreate.byFreeSpace = true := by
    rw [consults] at hcons
    cases hc : s.wbrCreate <;> rw [hc] at hcons <;> first | rfl | cases hcons
  have hanew : choosesAnew A env s = true ↔ sbrRdonly env s.union i = .ok true := by
    rw [choosesAnew, hcached]
    cases hr : sbrRdonly env s.union i with
    | error e => simp only [hr, Bool.false_eq_true, reduceCtorEq]
    | ok rdonly => simp only [hr, Except.ok.injEq]
  rw [and_or_left, ht.place_iff hfree hpos, hanew]

end

/-- Nothing is in the cache yet. -/
def emptyMfs : WbrMfs := ⟨0, 0, -EROFS, 0, 0⟩

/-- At a time, every lower file system has 4096 bytes left. -/
def evenEnv (jiffies : Nat) : WbrEnv :=
  ⟨jiffies, fun _ => false, fun _ => true, fun _ => some (1, 4096), false, fun _ => 0⟩

/-- A new name in a directory of the first branch, without whiteouts. -/
def newDentry : Dinfo := ⟨0, 0, -1, -1, fun _ => none⟩

/-- Two branches, with the mfs policy; a creation chooses the second of them. -/
def chosenSb : PolicySb :=
  { union :=
      { mountedTwo with
        siBranch := [some ⟨2, .rw, ⟨2, 2000⟩, some 4096⟩, some ⟨1, .rw, ⟨1, 1000⟩, some 4096⟩] }
    wbrCreate := .mfs, wbrMfs := ⟨10, 100, 1, 4096, 0⟩, wbrRrNext := 0 }

def chosenEvents : List PolicyEvent :=
  [.branch (addTop 1).1, .branch (addTop 2).1, .policy (evenEnv 0) .mfs 100 0,
    .create (evenEnv 10) newDentry newDentry false]

theorem chosenSb_run : Run (PolicyStep .ilp32 branchMax127 plainFs) (startPolicy emptyMfs 0) chosenEvents
    (chosenSb, ⟨[1, 0], 2, some 0, some 1⟩) := by
  have h₁ : PolicyStep .ilp32 branchMax127 plainFs (startPolicy emptyMfs 0) (.branch (addTop 1).1)
      (⟨mountedOne, .tdp, emptyMfs, 0⟩, ⟨[0], 1, none, none⟩) := PolicyStep.branch mountedOne_step
  have h₂ : PolicyStep .ilp32 branchMax127 plainFs (⟨mountedOne, .tdp, emptyMfs, 0⟩, ⟨[0], 1, none, none⟩)
      (.branch (addTop 2).1) (⟨mountedTwo, .tdp, emptyMfs, 0⟩, ⟨[1, 0], 2, none, none⟩) :=
    PolicyStep.branch mountedTwo_step
  have h₃ : PolicyStep .ilp32 branchMax127 plainFs (⟨mountedTwo, .tdp, emptyMfs, 0⟩, ⟨[1, 0], 2, none, none⟩)
      (.policy (evenEnv 0) .mfs 100 0)
      (⟨mountedTwo, .mfs, ⟨0, 100, -EROFS, 0, 0⟩, 0⟩, ⟨[1, 0], 2, none, none⟩) := PolicyStep.policy rfl
  have h₄ : PolicyStep .ilp32 branchMax127 plainFs
      (⟨mountedTwo, .mfs, ⟨0, 100, -EROFS, 0, 0⟩, 0⟩, ⟨[1, 0], 2, none, none⟩)
      (.create (evenEnv 10) newDentry newDentry false) (chosenSb, ⟨[1, 0], 2, some 0, some 1⟩) :=
    @PolicyStep.create .ilp32 branchMax127 plainFs _ chosenSb _ (evenEnv 10) newDentry newDentry false 1
      (by decide +kernel)
  exact (((Run.nil.snoc h₁).snoc h₂).snoc h₃).snoc h₄

/-- A little later the choice can be used. -/
theorem run_cached_iff_chosen :
    (((1 : Nat) : Int) ≤ chosenSb.union.siBend ∧
        ([1, 0][1]? = some 0 ∨ choosesAnew .ilp32 (evenEnv 20) chosenSb = true)) ↔
      (some 1 = some 1 ∨ ((1 : Nat) : Int) ≤ chosenSb.union.siBend ∧
        sbrRdonly (evenEnv 20) chosenSb.union 1 = .ok true) :=
  @run_cached_iff .ilp32 branchMax127 plainFs chosenSb _ chosenEvents emptyMfs 0 chosenSb_run (evenEnv 20)
    newDentry newDentry 1 (by decide +kernel) (by decide +kernel)

/-- The second branch is deleted. -/
def staleSb : PolicySb :=
  { chosenSb with
    union :=
      { siBend := 0, siLastBrId := 2, sMaxbytes := 2000
        siBranch := [some ⟨2, .rw, ⟨2, 2000⟩, some 4096⟩, none]
        diBstart := 0, diBend := 0, diHdentry := [some (plainRoot 2), none]
        iiBstart := 0, iiBend := 0, iiHinode := [⟨some 2, 2⟩, ⟨none, 1⟩] } }

theorem staleSb_run : Run (PolicyStep .ilp32 branchMax127 plainFs) (startPolicy emptyMfs 0)
    (chosenEvents ++ [.branch (.del (plainRoot 1) 0 0 false)]) (staleSb, ⟨[1], 2, some 0, none⟩) :=
  chosenSb_run.snoc
    (@PolicyStep.branch .ilp32 branchMax127 plainFs chosenSb _ (.del (plainRoot 1) 0 0 false) 0
      staleSb.union (by decide +kernel))

/-- **A stale index**: the next creation passes 1 to `au_sbr`, the last index being 0, and finds no
    branch there. -/
theorem deleted_below :
    ¬ ∀ (A : Arch) (cfg : BrConfig) (fs : LowerFs) (mfs : WbrMfs) (next : Int) (es : List PolicyEvent)
      (s : PolicySb) (h : History) (env : WbrEnv) (dentry parent : Dinfo) (i : Nat),
      Run (PolicyStep A cfg fs) (startPolicy mfs next) es (s, h) →
      consults env s dentry parent = true → cachedBindex A env s.wbrMfs = some i →
      (i : Int) ≤ s.union.siBend ∧ (h.serials[i]? = h.chosen ∨ choosesAnew A env s = true) := by
  intro hall
  have hle := (hall .ilp32 branchMax127 plainFs emptyMfs 0 _ staleSb _ (evenEnv 20) newDentry newDentry 1
    staleSb_run (by decide +kernel) (by decide +kernel)).1
  revert hle
  decide

example : auWbrCreate .ilp32 (evenEnv 20) staleSb newDentry newDentry false = .error .null := by
  decide +kernel

end KernelPatches.Aufs
