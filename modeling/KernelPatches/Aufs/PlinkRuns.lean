/-
  aufs: what pseudo-links are for.

  The runs are those of a mounted union whose branches stay: names of files are made, linked, renamed and removed
  on the branches, inodes come into memory and leave it, and files are copied up and linked across branches.  An
  inode leaves memory only when nobody has a reference, and the list has one of each inode on it.

  * `one_hidden_inode` — an inode in memory has one file on each branch: the names of the branch that lead to a
                         hidden inode of it are links of one another;
  * `plinks_kept`      — every name in a plink directory leads to the hidden inode whose number it has, and
                         `do_whplink` never removes one;
  * `plinked_cpup`     — once an inode on the list has its name there, a copy-up to that branch makes a link and
                         no second file, however much later;
  * `half_refresh`     — when a branch is deleted, what is left on the list are the inodes with a hidden inode on
                         another one.
-/
import KernelPatches.Aufs.PlinkKept
import KernelPatches.Lib.Tally

namespace KernelPatches.Aufs

open KernelPatches.Lib

/-! ## Runs -/

variable {π : Type} [DecidableEq π]

open PlinkSb

/-- The events of a run. -/
inductive PlinkEv (π : Type)
  | cpup (i : Nat) (src n : π) (bdst bsrc : Nat)
  | link (i : Nat) (src dst : π) (bdst bsrc : Nat)
  | create (b : Nat) (n : π) (h : Nat)
  | unlink (b : Nat) (n : π)
  | rename (b : Nat) (n n' : π)
  | enter (i b h : Nat)
  | evict (i : Nat)

/-- A name of the inode on the branch: the hidden dentry of it is positive, of the inode's hidden inode. -/
def PlinkSb.SourceAt (s : PlinkSb π) (i b : Nat) (n : π) : Prop :=
  ∃ h, ((s.ii i).iiHinode b).hiInode = some h ∧ (s.br b).names.find n = some h

/-- One step.  What the lower file systems and the allocations answer is free. -/
inductive PlinkStep : PlinkSb π → PlinkEv π → PlinkSb π → Prop
  | cpup {s s' : PlinkSb π} {i : Nat} {src n : π} {bdst bsrc : Nat} {o : CpupEnv} {mode : Nat} {io : List Int}
      {app : AppendOps} {err : Int} (hmode : mode ≠ sIfdir) (hlt : bdst < bsrc) (hsrc : s.SourceAt i bsrc src)
      -- the hidden dentry on the target branch is negative
      (hneg : (s.br bdst).names.find n = none) (hfree : s.Free bdst o.newIno)
      (h : s.cpupSingle o mode io app i n bdst bsrc = some (err, s')) : PlinkStep s (.cpup i src n bdst bsrc) s'
  | link {s s' : PlinkSb π} {i : Nat} {src dst : π} {bdst bsrc : Nat} {o : CpupEnv} {mode : Nat}
      {io io' : List Int} {app app' : AppendOps} {hasAlias : Bool} {err : Int} (hmode : mode ≠ sIfdir)
      (hle : bdst ≤ bsrc) (hsrc : s.SourceAt i bsrc src) (hneg : (s.br bdst).names.find dst = none)
      (hfree : s.Free bdst o.newIno)
      (h : s.linkNames o mode io app app' hasAlias io' i src dst bdst bsrc = some (err, s')) :
      PlinkStep s (.link i src dst bdst bsrc) s'
  | create {s : PlinkSb π} {b : Nat} {n : π} {h : Nat} (hneg : (s.br b).names.find n = none) (hfree : s.Free b h) :
      PlinkStep s (.create b n h) (s.create b n h)
  | unlink {s : PlinkSb π} {b : Nat} {n : π} : PlinkStep s (.unlink b n) (s.unlink b n)
  | rename {s : PlinkSb π} {b : Nat} {n n' : π} :
      PlinkStep s (.rename b n n') (s.setBr b { s.br b with names := (s.br b).names.move n n' })
  -- with another hidden inode on the branch it is -ESTALE
  | enter {s : PlinkSb π} {i b h : Nat} (hnone : ((s.ii i).iiHinode b).hiInode = none) :
      PlinkStep s (.enter i b h) (s.enter i b h)
  -- nobody has a reference
  | evict {s : PlinkSb π} {i : Nat} (href : s.refs i = 0) :
      PlinkStep s (.evict i) { s.setIi i (IInfo.empty (s.ii i).iiGeneration) with
        had := fun i' b h => if i' = i then false else s.had i' b h }

/-! ## The calls -/

section Calls

variable {s s' : PlinkSb π} {i b h : Nat} {n : π}

/-- The new name leads to the hidden inode the inode has there. -/
def NamedAt (s : PlinkSb π) (i b : Nat) (n : π) : Prop :=
  ∃ h, (s.br b).names.find n = some h ∧ ((s.ii i).iiHinode b).hiInode = some h ∧ (s.br b).nlink h ≠ 0

theorem find_enter (br : LinkBr π) (n : π) (h : Nat) : (br.names.enter n h).find n = some h := by
  simp [Directory.find, Directory.enter]

omit [DecidableEq π] in
theorem nlink_enter (br : LinkBr π) (n : π) (h : Nat) :
    ({ br with names := br.names.enter n h } : LinkBr π).nlink h ≠ 0 :=
  LinkBr.nlink_ne_zero.mpr (Or.inl ⟨n, List.mem_cons_self⟩)

/-- The append is of a name that stays. -/
theorem NamedAt.append {alloc : Bool} {io : List Int} (hi : PlinkInv s) (hn : NamedAt s i b n)
    (hslot : ((s.ii i).iiHinode b).hiInode = some h) (hs : s.auPlinkAppend alloc io i b h = some s') :
    NamedAt s' i b n := by
  have ha := auPlinkAppend_spec hslot (fun h' hmem => hi.own hmem) hs
  obtain ⟨h', hfind, hslot', hl⟩ := hn
  have hnames : (s'.br b).names = (s.br b).names ∧ ∀ tgt, (tgt, h') ∈ (s.br b).plinks → (tgt, h') ∈ (s'.br b).plinks := by
    rcases ha.br with h0 | h1
    · rw [h0]
      exact ⟨rfl, fun _ hm => hm⟩
    · rw [h1, setBr_br_self]
      exact ⟨rfl, fun _ hm => List.mem_cons_of_mem _ hm⟩
  refine ⟨h', ?_, ?_, ?_⟩
  · rw [hnames.1, hfind]
  · rw [ha.ii, hslot']
  · rcases LinkBr.nlink_ne_zero.mp hl with hn | ⟨tgt, htgt⟩
    · exact LinkBr.nlink_ne_zero.mpr (Or.inl (by rw [hnames.1]; exact hn))
    · exact LinkBr.nlink_ne_zero.mpr (Or.inr ⟨tgt, hnames.2 tgt htgt⟩)

/-- `au_cpup_single` where the option is off and the inode is on the target branch. -/
theorem auCpupSingle_off {env : CpupEnv} {hSrc : HInode} {io io' : List Int} {err : Int} {left : Bool}
    (hoff : (env.dstNlink.isSome && !env.plink) = true)
    (hs : auCpupSingle env hSrc io = some (err, left, io')) : err ≠ 0 := by
  rw [auCpupSingle, if_pos hoff] at hs
  cases hs
  decide

/-- And where it is to be linked, and there is no pseudo-link. -/
theorem auCpupSingle_broken {env : CpupEnv} {hSrc : HInode} {io io' : List Int} {err : Int} {left : Bool}
    (hon : ¬ (env.dstNlink.isSome && !env.plink) = true) (hlink : env.dstNlink.any (· ≠ 0) = true)
    (hno : env.plinkFound = false) (hs : auCpupSingle env hSrc io = some (err, left, io')) : err ≠ 0 := by
  rw [auCpupSingle, if_neg hon, if_pos hlink] at hs
  dsimp only at hs
  split at hs
  · rename_i hl
    cases hs
    exact hl
  · rw [hno] at hs
    cases hs
    decide

/-- **A copy-up**: after a success the name leads to the hidden inode of the inode. -/
theorem PlinkInv.cpupSingle (hi : PlinkInv s) {o : CpupEnv} {mode : Nat} {io : List Int} {app : AppendOps}
    {bdst bsrc hSrc : Nat} {err : Int} (hsrc : ((s.ii i).iiHinode bsrc).hiInode = some hSrc)
    (hl : (s.br bsrc).nlink hSrc ≠ 0) (hlt : bdst < bsrc)
    (hs : s.cpupSingle o mode io app i n bdst bsrc = some (err, s')) :
    PlinkGoes s s' ∧ (err = 0 → NamedAt s' i bdst n) := by
  have hsame : PlinkGoes s s := ⟨hi, .refl s⟩
  unfold PlinkSb.cpupSingle at hs
  rw [hsrc] at hs
  dsimp only at hs
  split at hs
  · cases hs
  rename_i err' left io' hcpup
  split at hs
  · rename_i hoff
    cases hs
    exact ⟨hsame, fun h0 => absurd h0 (auCpupSingle_off hoff hcpup)⟩
  rename_i hon
  split at hs
  · -- the new name is a link
    rename_i hlink
    split at hs
    · rename_i hno
      cases hs
      refine ⟨hsame, fun h0 => absurd h0 (auCpupSingle_broken hon hlink ?_ hcpup)⟩
      rw [hno]
      rfl
    · rename_i hp hfound
      cases hs
      obtain ⟨hd, hdst, hlk⟩ := Option.bind_eq_some_iff.mp hfound
      have hmem : (plinkName i hd, hp) ∈ (s.br bdst).plinks := Directory.mem_of_find hlk
      obtain rfl := hi.own hmem
      have hlive : (s.br bdst).nlink hp ≠ 0 := LinkBr.nlink_ne_zero.mpr (Or.inr ⟨_, hmem⟩)
      cases left with
      | false => exact ⟨hsame, fun h0 => by subst h0; exact nomatch auCpupSingle_left hcpup⟩
      | true =>
        refine ⟨⟨hi.link hlive, .link⟩, fun _ => ⟨hp, ?_, hdst, ?_⟩⟩
        · rw [if_pos rfl, PlinkSb.link, setBr_br_self]
          exact find_enter _ n hp
        · rw [if_pos rfl, PlinkSb.link, setBr_br_self]
          exact nlink_enter _ n hp
  -- a new hidden inode
  rename_i hlink
  obtain ⟨t, ht⟩ : ∃ t, t = if (((s.ii i).iiHinode bdst).hiInode).isSome
    then s.setIi i (auUpdateBrangeZero (fun b => (s.br b).nlink) (s.ii i)) else s := ⟨_, rfl⟩
  rw [← ht] at hs
  obtain ⟨hst, htbr, htnone, htsrc⟩ := hi.cleared (b := bdst) hsrc hl (fun hd hdst => by
    by_contra hne
    refine hlink ?_
    rw [hdst]
    simpa using hne) ht
  obtain ⟨u, hu⟩ : ∃ u, u = if left = true then t.create bdst n o.newIno else t := ⟨_, rfl⟩
  rw [← hu] at hs
  have hsu : PlinkGoes s u := by
    rw [hu]
    split
    · exact ⟨hst.inv.create, hst.keeps.trans .create⟩
    · exact hst
  split at hs
  · rename_i hne
    cases hs
    exact ⟨hsu, fun h0 => absurd h0 hne⟩
  rename_i hzero
  rw [not_not] at hzero
  subst hzero
  obtain rfl := auCpupSingle_left hcpup
  rw [if_pos rfl] at hu
  have huii : u.ii = t.ii := by rw [hu]; rfl
  have hoccsrc : (u.ii i).Occupied bsrc := by
    rw [IInfo.Occupied, huii, htsrc]
    rfl
  have hunone : ((u.ii i).iiHinode bdst).hiInode = none := by rw [huii]; exact htnone
  rw [hsu.inv.enter_above hoccsrc hlt] at hs
  have hentered : PlinkGoes s (u.enter i bdst o.newIno) := ⟨hsu.inv.enter hunone, hsu.keeps.trans (.enter hunone)⟩
  have hbr : (u.enter i bdst o.newIno).br bdst
      = { t.br bdst with names := (t.br bdst).names.enter n o.newIno } := by
    have h0 : (u.enter i bdst o.newIno).br = u.br := rfl
    rw [h0, hu]
    exact setBr_br_self
  have hslot : (((u.enter i bdst o.newIno).ii i).iiHinode bdst).hiInode = some o.newIno := by
    have h0 : (u.enter i bdst o.newIno).ii
      = (u.setIi i (((u.ii i).widen bdst).setHIptr bdst (some o.newIno) (u.brId bdst))).ii := by
      simp [PlinkSb.enter, PlinkSb.setHIptr, PlinkSb.setIi]
    rw [h0, setIi_ii_self, IInfo.setHIptr_self]
  have hlive : ((u.enter i bdst o.newIno).br bdst).nlink o.newIno ≠ 0 := by
    rw [hbr]
    exact nlink_enter _ n _
  have hnamed : NamedAt (u.enter i bdst o.newIno) i bdst n := by
    refine ⟨o.newIno, ?_, hslot, hlive⟩
    rw [hbr]
    exact find_enter _ n _
  split at hs
  · obtain ⟨v, hv, heq⟩ := Option.map_eq_some_iff.mp hs
    cases heq
    have hv' := hentered.inv.append hslot hlive hv
    exact ⟨⟨hv'.inv, hentered.keeps.trans hv'.keeps⟩, fun _ => hnamed.append hentered.inv hslot hv⟩
  · cases hs
    exact ⟨hentered, fun _ => hnamed⟩

/-- A name that is there has a hidden inode that lives. -/
theorem nlink_of_find {h' : Nat} (h : (s.br b).names.find n = some h') : (s.br b).nlink h' ≠ 0 :=
  LinkBr.nlink_ne_zero.mpr (Or.inl ⟨n, Directory.mem_of_find h⟩)

theorem PlinkInv.cpupOrLink (hi : PlinkInv s) {o : CpupEnv} {mode : Nat} {io : List Int} {app : AppendOps}
    {hasAlias : Bool} {src dst : π} {bdst bsrc : Nat} {err : Int} (hsrc : s.SourceAt i bsrc src) (hlt : bdst < bsrc)
    (hs : s.cpupOrLink o mode io app hasAlias i dst bdst bsrc = some (err, s')) :
    PlinkGoes s s' ∧ (err = 0 → NamedAt s' i bdst dst) := by
  obtain ⟨hSrc, hslot, hfind⟩ := hsrc
  unfold PlinkSb.cpupOrLink at hs
  dsimp only at hs
  split at hs
  · exact hi.cpupSingle hslot (nlink_of_find hfind) hlt hs
  rename_i h hh
  obtain ⟨hread, hlive⟩ := Option.filter_eq_some_iff.mp hh
  rw [decide_eq_true_eq] at hlive
  have hdst : ((s.ii i).iiHinode bdst).hiInode = some h := by
    split at hread
    · exact hread
    · cases hread
  split at hs
  · cases hs
    split
    · refine ⟨⟨hi.link hlive, .link⟩, fun _ => ⟨h, ?_, hdst, ?_⟩⟩
      · rw [PlinkSb.link, setBr_br_self]
        exact find_enter _ dst h
      · rw [PlinkSb.link, setBr_br_self]
        exact nlink_enter _ dst h
    · rename_i hne
      exact ⟨⟨hi, .refl s⟩, fun h0 => absurd h0 hne⟩
  · cases hs
    exact ⟨⟨hi, .refl s⟩, fun h0 => absurd h0 (by decide)⟩

/-- `au_cpup_or_link` -/
theorem PlinkInv.auCpupOrLink (hi : PlinkInv s) {o : CpupEnv} {mode : Nat} {io : List Int} {app app' : AppendOps}
    {hasAlias : Bool} {src dst : π} {bdst bsrc : Nat} {err : Int} (hsrc : s.SourceAt i bsrc src) (hlt : bdst < bsrc)
    (hs : s.auCpupOrLink o mode io app app' hasAlias i dst bdst bsrc = some (err, s')) : PlinkGoes s s' := by
  unfold PlinkSb.auCpupOrLink at hs
  split at hs
  · cases hs
  rename_i e t hfirst
  obtain ⟨hst, htn⟩ := hi.cpupOrLink hsrc hlt hfirst
  split at hs
  · cases hs
    exact hst
  rename_i hzero
  rw [not_not] at hzero
  obtain ⟨h, hname, hthere, hlive⟩ := htn hzero
  rw [hname] at hs
  obtain ⟨v, hv, heq⟩ := Option.map_eq_some_iff.mp hs
  cases heq
  have htv := hst.inv.append hthere hlive hv
  exact ⟨htv.inv, hst.keeps.trans htv.keeps⟩

theorem PlinkInv.linkSrc (hi : PlinkInv s) {io : List Int} {src dst : π} {err : Int}
    (hs : s.linkSrc io src dst b = some (err, s')) : PlinkGoes s s' := by
  unfold PlinkSb.linkSrc at hs
  split at hs
  · cases hs
  · rename_i h hfind
    cases hs
    split
    · exact ⟨hi.link (nlink_of_find hfind), .link⟩
    · exact ⟨hi, .refl s⟩

/-- `aufs_link` -/
theorem PlinkInv.linkNames (hi : PlinkInv s) {o : CpupEnv} {mode : Nat} {io io' : List Int}
    {app app' : AppendOps} {hasAlias : Bool} {src dst : π} {bdst bsrc : Nat} {err : Int}
    (hsrc : s.SourceAt i bsrc src)
    (hs : s.linkNames o mode io app app' hasAlias io' i src dst bdst bsrc = some (err, s')) : PlinkGoes s s' := by
  unfold PlinkSb.linkNames at hs
  split at hs
  · split at hs
    · rename_i hlt
      exact hi.auCpupOrLink hsrc hlt hs
    · exact hi.linkSrc hs
  · split at hs
    · rename_i hlt
      split at hs
      · cases hs
      rename_i e t hcpup
      obtain ⟨hSrc, hslot, hfind⟩ := hsrc
      have hst := (hi.cpupSingle hslot (nlink_of_find hfind) hlt hcpup).1
      split at hs
      · cases hs
        exact hst
      · have htu := hst.inv.linkSrc hs
        exact ⟨htu.inv, hst.keeps.trans htu.keeps⟩
    · exact hi.linkSrc hs

omit [DecidableEq π] in
/-- An inode that is not on the list leaves memory. -/
theorem PlinkInv.evict (hi : PlinkInv s) (href : s.refs i = 0) :
    PlinkInv { s.setIi i (IInfo.empty (s.ii i).iiGeneration) with
      had := fun i' b h => if i' = i then false else s.had i' b h } where
  one j b h hhad hl := by
    have hhad' : (if j = i then false else s.had j b h) = true := hhad
    by_cases hj : j = i
    · rw [if_pos hj] at hhad'
      cases hhad'
    · rw [if_neg hj] at hhad'
      show (((s.setIi i _).ii j).iiHinode b).hiInode = some h
      rw [setIi_ii_of_ne hj]
      exact hi.one j b h hhad' hl
  plinks := hi.plinks
  ranged j := by
    show ((s.setIi i _).ii j).Ranged
    by_cases hj : j = i
    · subst hj
      rw [setIi_ii_self]
      exact ⟨fun ⟨_, hb⟩ => absurd hb IInfo.empty_not_occupied, fun _ => ⟨rfl, rfl⟩⟩
    · rw [setIi_ii_of_ne hj]
      exact hi.ranged j
  ids j b hb := by
    replace hb : ((s.setIi i (IInfo.empty (s.ii i).iiGeneration)).ii j).Occupied b := hb
    show (((s.setIi i _).ii j).iiHinode b).hiId = s.brId b
    by_cases hj : j = i
    · subst hj
      rw [setIi_ii_self] at hb
      exact absurd hb IInfo.empty_not_occupied
    · rw [setIi_ii_of_ne hj] at hb ⊢
      exact hi.ids j b hb
  distinct := hi.distinct
  nodup := hi.nodup
  refs := hi.refs
  listed j hj := by
    have hne : j ≠ i := by
      rintro rfl
      rw [hi.refs, List.count_eq_zero] at href
      exact href hj
    show ∃ b, ((s.setIi i _).ii j).Occupied b
    rw [setIi_ii_of_ne hne]
    exact hi.listed j hj

/-- **One step.** -/
theorem PlinkInv.step {e : PlinkEv π} (hi : PlinkInv s) (hs : PlinkStep s e s') : PlinkGoes s s' := by
  cases hs with
  | cpup hmode hlt hsrc hneg hfree h =>
    obtain ⟨hSrc, hslot, hfind⟩ := hsrc
    exact (hi.cpupSingle hslot (nlink_of_find hfind) hlt h).1
  | link hmode hle hsrc hneg hfree h => exact hi.linkNames hsrc h
  | create hneg hfree => exact ⟨hi.create, .create⟩
  | unlink => exact ⟨hi.unlink, .setBr fun _ hm => hm⟩
  | rename => exact ⟨hi.rename, .setBr fun _ hm => hm⟩
  | enter hnone => exact ⟨hi.enter hnone, .enter hnone⟩
  | @evict i href =>
    refine ⟨hi.evict href, fun _ _ hm => hm, fun _ hm => hm, fun j hj b tgt h ht hh => ?_⟩
    have hne : j ≠ i := by
      rintro rfl
      rw [hi.refs, List.count_eq_zero] at href
      exact href hj
    show (((s.setIi i _).ii j).iiHinode b).hiInode = some h
    rwa [setIi_ii_of_ne hne]

end Calls

section Runs

variable {s0 s s' : PlinkSb π} {es es' : List (PlinkEv π)} {i b h : Nat}

theorem PlinkInv.of_run (h0 : PlinkMounted s0) (hr : Run PlinkStep s0 es s) : PlinkInv s :=
  hr.inv h0.inv fun _ _ _ hi hs => (hi.step hs).inv

/-- What is kept, however long it takes. -/
theorem PlinkKeeps.of_run (hi : PlinkInv s) (hr : Run PlinkStep s es' s') : PlinkKeeps s s' := by
  have hg : PlinkGoes s s' := hr.inv (I := fun t => PlinkGoes s t) ⟨hi, .refl s⟩ fun _ _ _ hst hs =>
    have htu := hst.inv.step hs
    ⟨htu.inv, hst.keeps.trans htu.keeps⟩
  exact hg.keeps

/-! ## Two names of one file -/

/-- Branch 1 has one file with two names, and branch 0 has nothing. -/
def twoNames : PlinkSb Bool where
  br b := if b = 1 then ⟨[(true, 5), (false, 5)], []⟩ else ⟨[], []⟩
  brId b := b
  ii _ := IInfo.empty 0
  head := []
  refs _ := 0
  had _ _ _ := false

theorem twoNames_mounted : PlinkMounted twoNames where
  ii _ := ⟨0, rfl⟩
  had _ _ _ := rfl
  head := rfl
  refs _ := rfl
  plinks b tgt h hmem := by
    have hnil : (twoNames.br b).plinks = [] := by
      show (if b = 1 then (⟨[(true, 5), (false, 5)], []⟩ : LinkBr Bool) else ⟨[], []⟩).plinks = []
      split <;> rfl
    rw [hnil] at hmem
    cases hmem
  ids := fun a b (hab : (a : Int) = b) => by omega

/-- A copy-up that succeeds. -/
def copies (newIno : Nat) : CpupEnv := ⟨true, true, none, false, 1, 1, -1, newIno⟩

/-- Inode 7 has been copied up by its first name, -/
def firstCopied : PlinkSb Bool :=
  let s := (((twoNames.enter 7 1 5).create 0 true 9).enter 7 0 9).addPlink 7
  s.setBr 0 { s.br 0 with plinks := (s.br 0).plinks.enter (plinkName 7 9) 9 }

/-- and then by the other one. -/
def bothCopied : PlinkSb Bool := firstCopied.link 0 false 9

theorem firstCopied_free {h : Nat} (hne : h ≠ 9) : firstCopied.Free 0 h := by
  constructor
  · by_contra hl
    rcases LinkBr.nlink_ne_zero.mp hl with ⟨n, hn⟩ | ⟨tgt, ht⟩
    · have hmem : (n, h) ∈ [(true, 9)] := hn
      exact hne (Prod.mk.inj (List.mem_singleton.mp hmem)).2
    · have hmem : (tgt, h) ∈ [(plinkName 7 9, 9)] := ht
      exact hne (Prod.mk.inj (List.mem_singleton.mp hmem)).2
  · intro j
    by_cases hj : j = 7
    · subst hj
      have h9 : ((firstCopied.ii 7).iiHinode 0).hiInode = some 9 := rfl
      rw [h9]
      exact fun hc => hne (Option.some.inj hc).symm
    · have hempty : firstCopied.ii j = IInfo.empty 0 := by
        simp [firstCopied, PlinkSb.enter, PlinkSb.setHIptr, PlinkSb.create, PlinkSb.link, PlinkSb.addPlink,
          PlinkSb.setBr, PlinkSb.setIi, twoNames, hj]
      rw [hempty]
      rintro ⟨⟩

theorem firstCopied_run : ∃ es, Run PlinkStep twoNames es firstCopied := by
  have h1 : PlinkStep twoNames (.enter 7 1 5) (twoNames.enter 7 1 5) := .enter rfl
  have hcpup : (twoNames.enter 7 1 5).cpupSingle (copies 9) sIfreg [] ⟨true, []⟩ 7 true 0 1
      = some (0, firstCopied) := rfl
  have hfree : (twoNames.enter 7 1 5).Free 0 (copies 9).newIno := by
    refine ⟨rfl, fun j => ?_⟩
    by_cases hj : j = 7
    · subst hj
      rintro ⟨⟩
    · have hempty : (twoNames.enter 7 1 5).ii j = IInfo.empty 0 := by
        simp [PlinkSb.enter, PlinkSb.setHIptr, PlinkSb.setIi, twoNames, hj]
      rw [hempty]
      rintro ⟨⟩
  have h2 : PlinkStep (twoNames.enter 7 1 5) (.cpup 7 true true 0 1) firstCopied :=
    .cpup (by decide) (by decide) ⟨5, rfl, rfl⟩ rfl hfree hcpup
  exact ⟨_, (Run.nil.snoc h1).snoc h2⟩

theorem bothCopied_run : ∃ es, Run PlinkStep twoNames es bothCopied := by
  obtain ⟨es, h⟩ := firstCopied_run
  have hcpup : firstCopied.cpupSingle (copies 10) sIfreg [] ⟨true, []⟩ 7 false 0 1 = some (0, bothCopied) := rfl
  have hs : PlinkStep firstCopied (.cpup 7 false false 0 1) bothCopied :=
    .cpup (by decide) (by decide) ⟨5, rfl, rfl⟩ rfl (firstCopied_free (by decide)) hcpup
  exact ⟨_, h.snoc hs⟩

/-- **The plink directories.**  A name there leads to the hidden inode whose number it has, and stays: the
    `vfs_unlink` of `do_whplink` is for names that do not come up. -/
theorem plinks_kept (h0 : PlinkMounted s0) (hr : Run PlinkStep s0 es s) {tgt : List Char}
    (hmem : (tgt, h) ∈ (s.br b).plinks) :
    (∃ j, tgt = plinkName j h) ∧ (s.br b).plinks.find tgt = some h ∧
      ∀ es' s', Run PlinkStep s es' s' → (s'.br b).plinks.find tgt = some h := by
  have hi := PlinkInv.of_run h0 hr
  obtain ⟨j, hj⟩ := hi.plinks b tgt h hmem
  have hfind : ∀ t : PlinkSb π, PlinkInv t → (tgt, h) ∈ (t.br b).plinks → (t.br b).plinks.find tgt = some h := by
    intro t ht hm
    cases hf : (t.br b).plinks.find tgt with
    | none => exact absurd hm (Directory.find_eq_none.mp hf h)
    | some h' =>
      have hm' := Directory.mem_of_find hf
      rw [hj] at hm'
      rw [ht.own hm']
  refine ⟨⟨j, hj⟩, hfind s hi hmem, fun es' s' hr' => hfind s' (PlinkInv.of_run h0 (hr.append hr')) ?_⟩
  exact (PlinkKeeps.of_run hi hr').plinks b _ hmem

theorem plinks_kept_two : (bothCopied.br 0).plinks.find (plinkName 7 9) = some 9 := by
  obtain ⟨es, hr⟩ := firstCopied_run
  have hmem : (plinkName 7 9, 9) ∈ (firstCopied.br 0).plinks := List.mem_cons_self
  have hcpup : firstCopied.cpupSingle (copies 10) sIfreg [] ⟨true, []⟩ 7 false 0 1 = some (0, bothCopied) := rfl
  have hs : PlinkStep firstCopied (.cpup 7 false false 0 1) bothCopied :=
    .cpup (by decide) (by decide) ⟨5, rfl, rfl⟩ rfl (firstCopied_free (by decide)) hcpup
  exact (plinks_kept twoNames_mounted hr hmem).2.2 _ _ (Run.nil.snoc hs)

/-- `au_cpup_single` of an inode that is on the target branch and has its pseudo-link there. -/
theorem auCpupSingle_linked (env : CpupEnv) (hSrc : HInode) (io : List Int) (hon : env.plink = true)
    (hlink : env.dstNlink.any (· ≠ 0) = true) (hfound : env.plinkFound = true) :
    ∃ err io', auCpupSingle env hSrc io = some (err, decide (err = 0), io') ∧ (err ≠ 0 → ∃ r ∈ io, r < 0) := by
  have hask : ∀ l : List Int, (ask l).1 ≠ 0 → ∃ r ∈ l, r < 0 := by
    intro l hl
    cases l with
    | nil => exact absurd rfl hl
    | cons r rest =>
      refine ⟨r, List.mem_cons_self, ?_⟩
      by_contra hr
      exact hl (min_eq_right (Int.not_lt.mp hr))
  rw [auCpupSingle, if_neg (by simp [hon]), if_pos hlink]
  dsimp only
  by_cases hl : (ask io).1 = 0
  · rw [if_neg (not_not_intro hl), hfound]
    refine ⟨(ask (ask io).2).1, (ask (ask io).2).2, rfl, fun hne => ?_⟩
    obtain ⟨r, hr, hneg⟩ := hask _ hne
    refine ⟨r, ?_, hneg⟩
    cases io with
    | nil => exact hr
    | cons _ _ => exact List.mem_cons_of_mem _ hr
  · rw [if_pos hl]
    exact ⟨_, _, by rw [decide_eq_false hl], fun hne => hask io hne⟩

/-- **A pseudo-link holds.**  An inode is on the list and has its name in the plink directory of a branch.  Then,
    however much later, a copy-up of it to that branch makes the new name a link to the hidden inode it has had
    there, and does nothing else, unless a lower file system answers with an error. -/
theorem plinked_cpup (h0 : PlinkMounted s0) (hr : Run PlinkStep s0 es s) (hlisted : i ∈ s.head)
    (hslot : ((s.ii i).iiHinode b).hiInode = some h) (hname : s.auPlinkLkup b i h ≠ none)
    (hr' : Run PlinkStep s es' s') {o : CpupEnv} {mode : Nat} {io : List Int} {app : AppendOps} {src n : π}
    {bsrc : Nat} (hon : o.plink = true) (hsrc : s'.SourceAt i bsrc src) :
    ∃ err, s'.cpupSingle o mode io app i n b bsrc = some (err, if err = 0 then s'.link b n h else s') ∧
      (err ≠ 0 → ∃ r ∈ io, r < 0) := by
  have hi := PlinkInv.of_run h0 hr
  have hi' := PlinkInv.of_run h0 (hr.append hr')
  have hk := PlinkKeeps.of_run hi hr'
  obtain ⟨h', hfind⟩ := Option.ne_none_iff_exists'.mp hname
  have hmem : (plinkName i h, h') ∈ (s.br b).plinks := Directory.mem_of_find hfind
  obtain rfl := hi.own hmem
  -- all is there as before
  have hslot' := hk.slots i hlisted b _ h' hmem hslot
  have hmem' := hk.plinks b _ hmem
  have hfind' : s'.auPlinkLkup b i h' = some h' := by
    cases hf : s'.auPlinkLkup b i h' with
    | none => exact absurd hmem' (Directory.find_eq_none.mp hf h')
    | some h₂ => rw [hi'.own (Directory.mem_of_find hf)]
  have hlive : (s'.br b).nlink h' ≠ 0 := LinkBr.nlink_ne_zero.mpr (Or.inr ⟨_, hmem'⟩)
  obtain ⟨hSrc, hsslot, -⟩ := hsrc
  obtain ⟨err, io', hcpup, herr⟩ := auCpupSingle_linked
    { o with dstNlink := some ((s'.br b).nlink h'), plinkFound := true } (.mk hSrc mode [] fun _ => 0) io hon
    (by simpa using hlive) rfl
  refine ⟨err, ?_, herr⟩
  have hany : (some ((s'.br b).nlink h')).any (· ≠ 0) = true := by simpa using hlive
  have hoff : ¬ ((some ((s'.br b).nlink h')).isSome && !o.plink) = true := by simp [hon]
  unfold PlinkSb.cpupSingle
  rw [hsslot, hslot']
  simp only [Option.map_some, Option.bind_some, hfind', Option.isSome_some, hcpup]
  rw [if_neg (by simpa using hoff), if_pos hany]
  by_cases hz : err = 0
  · simp [hz]
  · simp [hz]

theorem plinked_cpup_two : ∃ err, firstCopied.cpupSingle (copies 10) sIfreg [] ⟨true, []⟩ 7 false 0 1
    = some (err, if err = 0 then firstCopied.link 0 false 9 else firstCopied) ∧ err = 0 := by
  obtain ⟨es, hr⟩ := firstCopied_run
  have hname : firstCopied.auPlinkLkup 0 7 9 ≠ none := Option.some_ne_none 9
  have hsrc : firstCopied.SourceAt 7 1 false := ⟨5, rfl, rfl⟩
  obtain ⟨err, hcpup, herr⟩ := plinked_cpup twoNames_mounted hr List.mem_cons_self rfl hname .nil
    (o := copies 10) rfl hsrc
  refine ⟨err, hcpup, ?_⟩
  by_contra hne
  obtain ⟨r, hr, -⟩ := herr hne
  cases hr

end Runs

/-! ## A branch is deleted -/

section HalfRefresh

omit [DecidableEq π]

variable {s0 s : PlinkSb π} {i b : Nat}

/-- The loop of `au_plink_half_refresh`, by induction on the entries. -/
theorem halfRefresh_fold (brId : Int) : ∀ (l : List Nat) (t : PlinkSb π), l.Nodup →
    (∀ i, (l.foldl (halfRefreshOne brId) t).ii i
      = if i ∈ l then (halfRefresh brId (t.ii i)).1 else t.ii i) ∧
    (∀ i, (l.foldl (halfRefreshOne brId) t).head.count i
      = t.head.count i - if i ∈ l ∧ (halfRefresh brId (t.ii i)).2 = true then 1 else 0) ∧
    ∀ i, (l.foldl (halfRefreshOne brId) t).refs i
      = t.refs i - if i ∈ l ∧ (halfRefresh brId (t.ii i)).2 = true then 1 else 0
  | [], t, _ => ⟨fun _ => rfl, fun _ => rfl, fun _ => rfl⟩
  | j :: l, t, hnd => by
    obtain ⟨hj, hl⟩ := List.nodup_cons.mp hnd
    obtain ⟨u, hu⟩ : ∃ u, u = halfRefreshOne brId t j := ⟨_, rfl⟩
    have huii : ∀ i, u.ii i = if i = j then (halfRefresh brId (t.ii j)).1 else t.ii i := by
      intro i
      have hset : u.ii = (t.setIi j (halfRefresh brId (t.ii j)).1).ii := by
        rw [hu, halfRefreshOne]
        split <;> rfl
      rw [hset]
      split
      · rename_i heq
        rw [heq, setIi_ii_self]
      · rename_i hne
        exact setIi_ii_of_ne hne
    have hucount : ∀ i, u.head.count i
        = t.head.count i - if i = j ∧ (halfRefresh brId (t.ii j)).2 = true then 1 else 0 := by
      intro i
      rw [hu, halfRefreshOne]
      cases hput : (halfRefresh brId (t.ii j)).2 with
      | false =>
        rw [if_neg Bool.false_ne_true, if_neg fun hc => Bool.false_ne_true hc.2, Nat.sub_zero]
        rfl
      | true =>
        rw [if_pos rfl]
        show (t.head.erase j).count i = _
        by_cases hij : i = j
        · subst hij
          rw [List.count_erase_self, if_pos ⟨rfl, rfl⟩]
        · rw [List.count_erase_of_ne hij, if_neg fun hc => hij hc.1, Nat.sub_zero]
    have hurefs : ∀ i, u.refs i = t.refs i - if i = j ∧ (halfRefresh brId (t.ii j)).2 = true then 1 else 0 := by
      intro i
      rw [hu, halfRefreshOne]
      cases hput : (halfRefresh brId (t.ii j)).2 with
      | false =>
        rw [if_neg Bool.false_ne_true, if_neg fun hc => Bool.false_ne_true hc.2, Nat.sub_zero]
        rfl
      | true =>
        rw [if_pos rfl]
        show Function.update t.refs j (t.refs j - 1) i = _
        by_cases hij : i = j
        · subst hij
          rw [Function.update_self, if_pos ⟨rfl, rfl⟩]
        · rw [Function.update_of_ne hij, if_neg fun hc => hij hc.1, Nat.sub_zero]
    obtain ⟨hii, hcount, hrefs⟩ := halfRefresh_fold brId l u hl
    have hfold : (j :: l).foldl (halfRefreshOne brId) t = l.foldl (halfRefreshOne brId) u := by
      rw [hu]
      rfl
    rw [hfold]
    refine ⟨fun i => ?_, fun i => ?_, fun i => ?_⟩
    · rw [hii, huii]
      by_cases hij : i = j
      · subst hij
        rw [if_neg hj, if_pos rfl, if_pos List.mem_cons_self]
      · simp [hij]
    · rw [hcount, hucount, huii]
      by_cases hij : i = j
      · subst hij
        simp [hj]
      · simp [hij]
    · rw [hrefs, hurefs, huii]
      by_cases hij : i = j
      · subst hij
        simp [hj]
      · simp [hij]

/-- What happens to one inode: it loses its hidden inode on the branch, and its entry with the last one. -/
theorem halfRefresh_spec (hi : PlinkInv s) (hocc : ∃ b', (s.ii i).Occupied b') :
    (∀ b', ((halfRefresh (s.brId b) (s.ii i)).1.iiHinode b').hiInode
      = if b' = b then none else ((s.ii i).iiHinode b').hiInode) ∧
    ((halfRefresh (s.brId b) (s.ii i)).2 = true ↔ ¬ ∃ b', b' ≠ b ∧ (s.ii i).Occupied b') := by
  obtain ⟨bstart, bend, hs, he, hleast, hgreatest⟩ := (hi.ranged i).found hocc
  have hrange : ∀ b', (s.ii i).Occupied b' →
      b' ∈ List.range' (s.ii i).iiBstart.toNat ((s.ii i).iiBend + 1 - (s.ii i).iiBstart).toNat := by
    intro b' hb'
    have h1 := hleast.2 hb'
    have h2 := hgreatest.2 hb'
    rw [List.mem_range'_1, hs, he]
    omega
  have hid : ∀ b', (s.ii i).Occupied b' → (((s.ii i).iiHinode b').hiId = s.brId b ↔ b' = b) := by
    intro b' hb'
    rw [hi.ids i b' hb']
    exact hi.distinct.eq_iff
  rw [halfRefresh, if_neg (by omega)]
  dsimp only
  split
  · -- there is none on that branch
    rename_i hnone
    rw [List.find?_eq_none] at hnone
    have hno : ¬ (s.ii i).Occupied b := by
      intro hb
      refine hnone b (hrange b hb) ?_
      rw [decide_eq_true_eq]
      exact ⟨hb, (hid b hb).mpr rfl⟩
    refine ⟨fun b' => ?_, ?_⟩
    · split
      · rename_i heq
        rw [heq, ← Option.not_isSome_iff_eq_none]
        exact hno
      · rfl
    · obtain ⟨b', hb'⟩ := hocc
      refine ⟨fun hc => (nomatch hc), fun hc => absurd ⟨b', ?_, hb'⟩ hc⟩
      rintro rfl
      exact hno hb'
  · rename_i b₁ hfound
    have hb₁ := List.find?_some hfound
    rw [decide_eq_true_eq] at hb₁
    obtain rfl := (hid b₁ hb₁.1).mp hb₁.2
    have hslot : ∀ b', (((s.ii i).setHIptr b₁ none 0).iiHinode b').hiInode
        = if b' = b₁ then none else ((s.ii i).iiHinode b').hiInode := by
      intro b'
      split
      · rename_i heq
        subst heq
        simp [IInfo.setHIptr]
      · rename_i hne
        rw [IInfo.setHIptr_of_ne _ hne]
    refine ⟨hslot, ?_⟩
    rw [Bool.not_eq_true', List.any_eq_false]
    constructor
    · rintro hall ⟨b', hne, hb'⟩
      refine hall b' (hrange b' hb') ?_
      rw [hslot, if_neg hne]
      exact hb'
    · intro hno b' _ hb'
      rw [hslot] at hb'
      split at hb'
      · cases hb'
      · rename_i hne
        exact hno ⟨b', hne, hb'⟩

/-- `au_plink_put`, by induction on the entries. -/
theorem put_fold : ∀ (l : List Nat) (t : PlinkSb π) (i : Nat),
    (l.foldl (fun s i => s.doPutPlink false i) t).refs i = t.refs i - l.count i
  | [], _, _ => rfl
  | j :: l, t, i => by
    rw [List.foldl_cons, put_fold l]
    show Function.update t.refs j (t.refs j - 1) i - l.count i = _
    by_cases hij : i = j
    · subst hij
      rw [Function.update_self, List.count_cons_self]
      omega
    · rw [Function.update_of_ne hij, List.count_cons_of_ne (Ne.symm hij)]

end HalfRefresh

/-- **A branch is deleted**, after any run: on the list are left those of its inodes that have a hidden inode on
    another branch, and none of them has one on that branch.  The list has one reference of each inode on it and of
    no other, and none when `au_plink_put` has been called. -/
theorem half_refresh {s0 s s' : PlinkSb π} {es : List (PlinkEv π)} {b : Nat} (h0 : PlinkMounted s0)
    (hr : Run PlinkStep s0 es s) (hs : s' = s.auPlinkHalfRefresh (s.brId b)) :
    (∀ i, i ∈ s'.head ↔ i ∈ s.head ∧ ∃ b', b' ≠ b ∧ (s.ii i).Occupied b') ∧
    (∀ i ∈ s.head, ∀ b', ((s'.ii i).iiHinode b').hiInode
      = if b' = b then none else ((s.ii i).iiHinode b').hiInode) ∧
    (∀ i ∉ s.head, s'.ii i = s.ii i) ∧ s'.head.Nodup ∧ (∀ i, s'.refs i = s'.head.count i) ∧
    s'.auPlinkPut.head = [] ∧ ∀ i, s'.auPlinkPut.refs i = 0 := by
  have hi := PlinkInv.of_run h0 hr
  obtain ⟨hii, hcount, hrefs⟩ := halfRefresh_fold (s.brId b) s.head s hi.nodup
  rw [PlinkSb.auPlinkHalfRefresh] at hs
  rw [← hs] at hii hcount hrefs
  have hhas : ∀ i, s'.refs i = s'.head.count i := fun i => by rw [hrefs, hcount, hi.refs]
  refine ⟨fun i => ?_, fun i hm => ?_, fun i hm => by rw [hii, if_neg hm], ?_, hhas, rfl, fun i => ?_⟩
  · have hone : s.head.count i ≤ 1 := List.nodup_iff_count_le_one.mp hi.nodup i
    rw [← List.count_pos_iff, ← List.count_pos_iff, hcount]
    by_cases hm : i ∈ s.head
    · obtain ⟨-, hput⟩ := halfRefresh_spec (b := b) hi (hi.listed i hm)
      have hpos := List.count_pos_iff.mpr hm
      by_cases hother : ∃ b', b' ≠ b ∧ (s.ii i).Occupied b'
      · rw [if_neg fun hc => hput.mp hc.2 hother]
        exact ⟨fun _ => ⟨hpos, hother⟩, fun _ => hpos⟩
      · rw [if_pos ⟨hm, hput.mpr hother⟩]
        exact ⟨fun hc => by omega, fun hc => absurd hc.2 hother⟩
    · rw [if_neg fun hc => hm hc.1, Nat.sub_zero, List.count_pos_iff]
      exact ⟨fun hc => absurd hc hm, fun hc => absurd hc.1 hm⟩
  · rw [hii, if_pos hm]
    exact (halfRefresh_spec hi (hi.listed i hm)).1
  · refine List.nodup_iff_count_le_one.mpr fun i => ?_
    rw [hcount]
    exact Nat.le_trans (Nat.sub_le _ _) (List.nodup_iff_count_le_one.mp hi.nodup i)
  · show (s'.head.foldl (fun s i => s.doPutPlink false i) s').refs i = 0
    rw [put_fold, hhas, Nat.sub_self]

/-- The copy goes with its branch, and the file below is left. -/
theorem half_refresh_two : 7 ∈ (bothCopied.auPlinkHalfRefresh 0).head := by
  obtain ⟨es, hr⟩ := bothCopied_run
  have hother : ∃ b', b' ≠ 0 ∧ (bothCopied.ii 7).Occupied b' := ⟨1, by decide, rfl⟩
  exact ((half_refresh (b := 0) twoNames_mounted hr rfl).1 7).mpr ⟨List.mem_cons_self, hother⟩

end KernelPatches.Aufs
