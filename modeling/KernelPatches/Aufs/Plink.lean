/-
  aufs: pseudo-links.

  A file with several names on a branch below is one inode of the union.  When it is copied up by one of its
  names, the other names still lead to the file below; so a copy-up by another name has to make a link to the
  first copy, and no second copy.  The first copy may have been renamed or removed by then.  Therefore
  `au_plink_append` gives the copy one more name, in a directory of the branch nobody sees: the number of the
  inode and of the hidden inode.  And it puts the inode on a list, which has a reference of it, so that the
  inode stays in memory with its hidden inodes.

  * `plinkName`, `auPlinkLkup`, `doWhplink` — the names in that directory;
  * `auPlinkAppend`, `auPlinkPut`, `auPlinkHalfRefresh` — the list;
  * `cpupSingle` — `au_cpup_single`, with what it does to the branches and to the inode;
  * `auCpupOrLink`, `linkNames` — `aufs_link`, from the test of the option on.

  Inodes and hidden inodes are known by their numbers.  The inode is locked for writing in all of this, the list
  has its spin lock and the directory its mutex, and no two inodes have a name there in common
  (`plinkName_inj`): calls for different inodes do not meet.
-/
import KernelPatches.Aufs.RenameSteps
import KernelPatches.Lib.Directory
import KernelPatches.Lib.Parser

namespace KernelPatches.Aufs

open KernelPatches.Lib

/-! ## The names -/

/-- `plink_name`: `"%lu.%lu"` -/
def plinkName (ino hIno : Nat) : List Char := Nat.toDigits 10 ino ++ '.' :: Nat.toDigits 10 hIno

/-- `PLINK_NAME_LEN` -/
def plinkNameLen : Nat := (20 + 1) * 2

/-- **The names are of one inode and one hidden inode.** -/
theorem plinkName_inj {ino ino' hIno hIno' : Nat} (h : plinkName ino hIno = plinkName ino' hIno') :
    ino = ino' ∧ hIno = hIno' := by
  have hread : ∀ n hn : Nat, digitsFrom 10 0 (plinkName n hn) = (n, '.' :: Nat.toDigits 10 hn) := by
    intro n hn
    rw [plinkName, digitsFrom_append (digitsFrom_toDigits n), digitsFrom_stops]
    intro c hc
    cases hc
    exact ⟨by decide, by decide, by decide⟩
  have heq := (hread ino hIno).symm.trans ((congrArg (digitsFrom 10 0) h).trans (hread ino' hIno'))
  obtain ⟨hfst, hsnd⟩ := Prod.mk.inj heq
  refine ⟨hfst, ?_⟩
  have hnum := (digitsFrom_toDigits hIno).symm.trans
    ((congrArg (digitsFrom 10 0) (List.cons.inj hsnd).2).trans (digitsFrom_toDigits hIno'))
  exact (Prod.mk.inj hnum).1

/-- The name and its end fit in the buffer. -/
theorem plinkName_fits {ino hIno : Nat} (h : ino < 2 ^ 64) (hh : hIno < 2 ^ 64) :
    (plinkName ino hIno).length < plinkNameLen := by
  have hlen : ∀ n < 2 ^ 64, (Nat.toDigits 10 n).length ≤ 20 := fun n hn =>
    (Nat.length_toDigits_le_iff (by decide) (by decide)).mpr (Nat.lt_trans hn (by decide))
  have hi := hlen ino h
  have hhi := hlen hIno hh
  rw [plinkName, List.length_append, List.length_cons, plinkNameLen]
  omega

/-! ## The branches and the inodes -/

/-- A branch: its names and those of its `wbr_plink` directory, with the number of the hidden inode of each. -/
structure LinkBr (π : Type) where
  names : Directory π Nat
  plinks : Directory (List Char) Nat

/-- `i_nlink` of a hidden inode that is no directory. -/
def LinkBr.nlink {π : Type} (br : LinkBr π) (h : Nat) : Nat := br.names.links h + br.plinks.links h

/-- What pseudo-links need of the super block: the branches and their ids, the inodes in memory, `si_plink`, and
    the references the list has of each inode.  `had i b h` is no field of the source: hidden inode `h` of branch
    `b` has been entered in inode `i` since that is in memory. -/
structure PlinkSb (π : Type) where
  br : Nat → LinkBr π
  brId : Nat → Int
  ii : Nat → IInfo
  head : List Nat
  refs : Nat → Nat
  had : Nat → Nat → Nat → Bool

/-- The hidden inode is changed, and `hi_id` with it if there is a new one. -/
def IInfo.setHIptr (ii : IInfo) (bindex : Nat) (hInode : Option Nat) (id : Int) : IInfo :=
  let hi := match hInode with
    | none => { ii.iiHinode bindex with hiInode := none }
    | some h => ⟨some h, id⟩
  { ii with iiHinode := Function.update ii.iiHinode bindex hi }

/-- This is what `au_set_h_iptr` does to the inode. -/
theorem auSetHIptr_ii {A : Arch} {lower : Lower} {ino bindex : Nat} {hInode : Option Nat} {ii ii' : IInfo}
    {s s' : ISuper} (h : auSetHIptr A lower ino bindex hInode ii s = some (ii', s')) :
    ∃ id, ii' = ii.setHIptr bindex hInode id ∧ (hInode ≠ none → ∃ br, auSbr s.br bindex = .ok br ∧ id = br.brId) := by
  unfold auSetHIptr at h
  cases hInode with
  | none =>
    cases h
    exact ⟨0, rfl, fun hc => absurd rfl hc⟩
  | some hi =>
    dsimp only at h
    cases hbr : auSbr s.br bindex with
    | error e =>
      rw [hbr] at h
      cases h
    | ok br =>
      rw [hbr] at h
      cases h
      exact ⟨br.brId, rfl, fun _ => ⟨br, rfl, rfl⟩⟩

/-- `au_update_brange` with `do_put_zero`: the hidden inodes without a link go first. -/
def auUpdateBrangeZero (nlink : Nat → Nat → Nat) (ii : IInfo) : IInfo :=
  if ii.iiBstart < 0 then ii
  else auUpdateBrange { ii with
    iiHinode := fun b =>
      if ii.iiBstart ≤ b ∧ b ≤ ii.iiBend ∧ ((ii.iiHinode b).hiInode.map (nlink b)).any (· = 0) then
        { ii.iiHinode b with hiInode := none }
      else ii.iiHinode b }

namespace PlinkSb

variable {π : Type} [DecidableEq π]

/-- Changes of one inode, and of one branch. -/
def setIi (i : Nat) (ii : IInfo) (s : PlinkSb π) : PlinkSb π := { s with ii := Function.update s.ii i ii }

def setBr (b : Nat) (br : LinkBr π) (s : PlinkSb π) : PlinkSb π := { s with br := Function.update s.br b br }

section Reading

omit [DecidableEq π]

variable {s : PlinkSb π} {i j b b' : Nat} {ii : IInfo} {br : LinkBr π}

@[simp] theorem setIi_ii_self : (s.setIi i ii).ii i = ii := by simp [setIi]

theorem setIi_ii_of_ne (h : j ≠ i) : (s.setIi i ii).ii j = s.ii j := by simp [setIi, h]

@[simp] theorem setIi_br : (s.setIi i ii).br = s.br := rfl

@[simp] theorem setBr_br_self : (s.setBr b br).br b = br := by simp [setBr]

theorem setBr_br_of_ne (h : b' ≠ b) : (s.setBr b br).br b' = s.br b' := by simp [setBr, h]

@[simp] theorem setBr_ii : (s.setBr b br).ii = s.ii := rfl

end Reading

/-- `vfs_link`: one name more. -/
def link (b : Nat) (n : π) (h : Nat) (s : PlinkSb π) : PlinkSb π :=
  s.setBr b { s.br b with names := (s.br b).names.enter n h }

/-- `vfs_unlink` -/
def unlink (b : Nat) (n : π) (s : PlinkSb π) : PlinkSb π :=
  s.setBr b { s.br b with names := (s.br b).names.remove n }

/-- `vfs_create` and the like: a hidden inode the branch has not had yet, or has no more. -/
def create (b : Nat) (n : π) (h : Nat) (s : PlinkSb π) : PlinkSb π :=
  let s := s.link b n h
  { s with had := fun i b' h' => if b' = b ∧ h' = h then false else s.had i b' h' }

/-- `au_set_h_iptr`, of a hidden inode. -/
def setHIptr (i b h : Nat) (s : PlinkSb π) : PlinkSb π :=
  let s := s.setIi i ((s.ii i).setHIptr b (some h) (s.brId b))
  { s with had := fun i' b' h' => if i' = i ∧ b' = b ∧ h' = h then true else s.had i' b' h' }

/-! ## A name in the plink directory -/

/-- `au_plink_lkup`, where no lookup fails: what the name of the inode and its hidden inode leads to. -/
def auPlinkLkup (b i h : Nat) (s : PlinkSb π) : Option Nat := (s.br b).plinks.find (plinkName i h)

end PlinkSb

section Whplink

variable {π : Type}

/-- `do_whplink`, of the hidden inode `h`: the error, and the branch. -/
def doWhplink (tgt : List Char) (h : Nat) (br : LinkBr π) (io : List Int) : Int × LinkBr π × List Int :=
  let l := ask io
  if l.1 ≠ 0 then (l.1, br, l.2)
  else
    let u :=
      if (br.plinks.find tgt).any (· ≠ h) then
        let u := ask l.2
        (u.1, if u.1 = 0 then { br with plinks := br.plinks.remove tgt } else br, u.2)
      else (0, br, l.2)
    if u.1 = 0 ∧ u.2.1.plinks.find tgt = none then
      let c := ask u.2.2
      (c.1, if c.1 = 0 then { u.2.1 with plinks := u.2.1.plinks.enter tgt h } else u.2.1, c.2)
    else u

/-- **What `do_whplink` does** where the name leads to nothing else: nothing, or one name more; and if it succeeds
    the name is there. -/
theorem doWhplink_cases {tgt : List Char} {h : Nat} {br br' : LinkBr π} {io io' : List Int} {err : Int}
    (hown : ∀ h', (tgt, h') ∈ br.plinks → h' = h) (hd : doWhplink tgt h br io = (err, br', io')) :
    (br' = br ∨ br' = { br with plinks := br.plinks.enter tgt h }) ∧
      (err = 0 → (tgt, h) ∈ br'.plinks) := by
  have hno : (br.plinks.find tgt).any (· ≠ h) = false := by
    cases hf : br.plinks.find tgt with
    | none => rfl
    | some h' =>
      rw [hown h' (Directory.mem_of_find hf)]
      simp
  simp only [doWhplink, hno, Bool.false_eq_true, if_false, true_and] at hd
  split at hd
  · rename_i hl
    cases hd
    exact ⟨Or.inl rfl, fun h0 => absurd h0 hl⟩
  split at hd
  · cases hd
    split
    · exact ⟨Or.inr rfl, fun _ => List.mem_cons_self⟩
    · rename_i hc
      exact ⟨Or.inl rfl, fun h0 => absurd h0 hc⟩
  · rename_i hf
    cases hd
    obtain ⟨h', hh⟩ := Option.ne_none_iff_exists'.mp hf
    have hmem := Directory.mem_of_find hh
    rw [hown h' hmem] at hmem
    exact ⟨Or.inl rfl, fun _ => hmem⟩

end Whplink

namespace PlinkSb

variable {π : Type}

/-- `whplink`, of the hidden inode `h`: the error. -/
def whplink (i b h : Nat) (io : List Int) (s : PlinkSb π) : Option (Int × PlinkSb π) :=
  match ((s.ii i).iiHinode b).hiInode with
  -- plink_name() reads the number of the hidden inode
  | none => none
  | some hInode =>
    let r := doWhplink (plinkName i hInode) h (s.br b) io
    some (r.1, s.setBr b r.2.1)

/-! ## The list -/

/-- `au_plink_test` -/
def auPlinkTest (i : Nat) (s : PlinkSb π) : Bool := s.head.any (· = i)

/-- `list_add` of a new entry, with a reference of the inode. -/
def addPlink (i : Nat) (s : PlinkSb π) : PlinkSb π :=
  { s with head := i :: s.head, refs := Function.update s.refs i (s.refs i + 1) }

/-- `do_put_plink` -/
def doPutPlink (doDel : Bool) (i : Nat) (s : PlinkSb π) : PlinkSb π :=
  { s with
    refs := Function.update s.refs i (s.refs i - 1)
    head := if doDel then s.head.erase i else s.head }

/-- `au_plink_append`, of the hidden inode `h`, where `alloc` says whether there is memory for an entry. -/
def auPlinkAppend (alloc : Bool) (io : List Int) (i b h : Nat) (s : PlinkSb π) : Option (PlinkSb π) :=
  let found := s.auPlinkTest i
  let added := !found && alloc
  let err := if !found && !alloc then negENOMEM else 0
  let s := if added then s.addPlink i else s
  let w := if err = 0 then s.whplink i b h io else some (err, s)
  w.map fun w => if w.1 ≠ 0 ∧ added = true then w.2.doPutPlink true i else w.2

/-- What an append comes to: the inode and its hidden inodes are as before, the plink directory has one name more
    or not, and the list has the inode, with one reference, or not. -/
structure PlinkAppended (i b h : Nat) (s s' : PlinkSb π) : Prop where
  ii : s'.ii = s.ii
  brId : s'.brId = s.brId
  had : s'.had = s.had
  br : s'.br = s.br ∨
    s'.br = (s.setBr b { s.br b with plinks := (s.br b).plinks.enter (plinkName i h) h }).br
  list : (s'.head = s.head ∧ s'.refs = s.refs) ∨
    (i ∉ s.head ∧ s'.head = i :: s.head ∧ s'.refs = Function.update s.refs i (s.refs i + 1))

theorem auPlinkAppend_spec {s s' : PlinkSb π} {alloc : Bool} {io : List Int} {i b h : Nat}
    (hslot : ((s.ii i).iiHinode b).hiInode = some h)
    (hown : ∀ h', (plinkName i h, h') ∈ (s.br b).plinks → h' = h)
    (hs : s.auPlinkAppend alloc io i b h = some s') : PlinkAppended i b h s s' := by
  have hfound : s.auPlinkTest i = true ↔ i ∈ s.head := by
    rw [auPlinkTest, List.any_eq_true]
    constructor
    · rintro ⟨j, hj, heq⟩
      rw [decide_eq_true_eq] at heq
      rwa [← heq]
    · exact fun hi => ⟨i, hi, decide_eq_true rfl⟩
  -- the name in the directory
  have hwhplink : ∀ t : PlinkSb π, t.ii = s.ii → t.br = s.br → ∃ err br,
      t.whplink i b h io = some (err, t.setBr b br) ∧
        (br = s.br b ∨ br = { s.br b with plinks := (s.br b).plinks.enter (plinkName i h) h }) := by
    intro t hii hbr
    obtain ⟨⟨err, br, io'⟩, hd⟩ : ∃ r, r = doWhplink (plinkName i h) h (s.br b) io := ⟨_, rfl⟩
    refine ⟨err, br, ?_, (doWhplink_cases hown hd.symm).1⟩
    rw [whplink, hii, hslot, hbr]
    dsimp only
    rw [← hd]
  have hsetBr : ∀ br, (br = s.br b ∨ br = { s.br b with plinks := (s.br b).plinks.enter (plinkName i h) h }) →
      Function.update s.br b br = s.br ∨ Function.update s.br b br
        = (s.setBr b { s.br b with plinks := (s.br b).plinks.enter (plinkName i h) h }).br := by
    rintro br (rfl | rfl)
    · exact Or.inl (Function.update_eq_self b s.br)
    · exact Or.inr rfl
  cases hf : s.auPlinkTest i with
  | true =>
    obtain ⟨err, br, hw, hbr⟩ := hwhplink s rfl rfl
    have heq : s' = s.setBr b br := by
      simpa [auPlinkAppend, hf, hw] using hs.symm
    rw [heq]
    exact ⟨rfl, rfl, rfl, hsetBr br hbr, Or.inl ⟨rfl, rfl⟩⟩
  | false =>
    have hno : i ∉ s.head := fun hc => by
      rw [hfound.mpr hc] at hf
      cases hf
    cases halloc : alloc with
    | false =>
      have heq : s' = s := by
        have hmem : (negENOMEM : Int) ≠ 0 := by decide
        simpa [auPlinkAppend, hf, halloc, hmem] using hs.symm
      rw [heq]
      exact ⟨rfl, rfl, rfl, Or.inl rfl, Or.inl ⟨rfl, rfl⟩⟩
    | true =>
      obtain ⟨err, br, hw, hbr⟩ := hwhplink (s.addPlink i) rfl rfl
      by_cases herr : err = 0
      · have heq : s' = (s.addPlink i).setBr b br := by
          simpa [auPlinkAppend, hf, halloc, hw, herr] using hs.symm
        rw [heq]
        exact ⟨rfl, rfl, rfl, hsetBr br hbr, Or.inr ⟨hno, rfl, rfl⟩⟩
      · have heq : s' = ((s.addPlink i).setBr b br).doPutPlink true i := by
          simpa [auPlinkAppend, hf, halloc, hw, herr] using hs.symm
        rw [heq]
        refine ⟨rfl, rfl, rfl, hsetBr br hbr, Or.inl ⟨?_, ?_⟩⟩
        · show (i :: s.head).erase i = s.head
          rw [List.erase_cons_head]
        · show Function.update (Function.update s.refs i (s.refs i + 1)) i _ = s.refs
          have hval : Function.update s.refs i (s.refs i + 1) i - 1 = s.refs i := by
            rw [Function.update_self, Nat.add_sub_cancel]
          rw [Function.update_idem]
          refine (congrArg (Function.update s.refs i) hval).trans (Function.update_eq_self i s.refs)

/-- `au_plink_put` -/
def auPlinkPut (s : PlinkSb π) : PlinkSb π :=
  { s.head.foldl (fun s i => s.doPutPlink false i) s with head := [] }

/-- What `au_plink_half_refresh` does to an inode, and whether its entry goes: the hidden inode of the branch is
    put, and the entry goes if it was the last one. -/
def halfRefresh (brId : Int) (ii : IInfo) : IInfo × Bool :=
  if ii.iiBstart < 0 then (ii, true)
  else
    let range := List.range' ii.iiBstart.toNat (ii.iiBend + 1 - ii.iiBstart).toNat
    match range.find? fun b => (ii.iiHinode b).hiInode.isSome ∧ (ii.iiHinode b).hiId = brId with
    | none => (ii, false)
    | some b =>
      let ii := ii.setHIptr b none 0
      (ii, !range.any fun b => (ii.iiHinode b).hiInode.isSome)

/-- One turn of the loop. -/
def halfRefreshOne (brId : Int) (s : PlinkSb π) (i : Nat) : PlinkSb π :=
  let r := halfRefresh brId (s.ii i)
  let s := s.setIi i r.1
  if r.2 then s.doPutPlink true i else s

/-- `au_plink_half_refresh` -/
def auPlinkHalfRefresh (brId : Int) (s : PlinkSb π) : PlinkSb π := s.head.foldl (halfRefreshOne brId) s

/-! ## Copying up, and links -/

variable [DecidableEq π]

/-- The answers to an append. -/
structure AppendOps where
  alloc : Bool
  io : List Int

/-- `au_cpup_single`, of inode `i` from branch `bsrc` to the name `n` of branch `bdst`. -/
def cpupSingle (o : CpupEnv) (mode : Nat) (io : List Int) (app : AppendOps) (i : Nat) (n : π) (bdst bsrc : Nat)
    (s : PlinkSb π) : Option (Int × PlinkSb π) :=
  match ((s.ii i).iiHinode bsrc).hiInode with
  | none => none
  | some hSrc =>
    let dst := ((s.ii i).iiHinode bdst).hiInode
    let dstNlink := dst.map (s.br bdst).nlink
    let plink := dst.bind fun h => s.auPlinkLkup bdst i h
    let env := { o with dstNlink := dstNlink, plinkFound := plink.isSome }
    match auCpupSingle env (.mk hSrc mode [] fun _ => 0) io with
    | none => none
    | some (err, left, _) =>
      if dstNlink.isSome && !o.plink then some (err, s)
      else if dstNlink.any (· ≠ 0) then
        -- the new name is one of the inode the pseudo-link leads to
        match plink with
        | none => some (err, s)
        | some h => some (err, if left then s.link bdst n h else s)
      else
        let s := if dst.isSome then s.setIi i (auUpdateBrangeZero (fun b => (s.br b).nlink) (s.ii i)) else s
        let s := if left then s.create bdst n o.newIno else s
        if err ≠ 0 then some (err, s)
        else
          let ii := s.ii i
          let s := if bdst < ii.iiBstart then s.setIi i { ii with iiBstart := bdst } else s
          let s := s.setHIptr i bdst o.newIno
          if mode ≠ sIfdir ∧ 1 < (s.br bsrc).nlink hSrc ∧ o.plink = true then
            (s.auPlinkAppend app.alloc app.io i bdst o.newIno).map fun s => (0, s)
          else some (0, s)

/-- `au_cpup_or_link` up to the append: the name `dst` for inode `i`, which is on branch `bsrc`.  `hasAlias` says
    whether there is a dentry of the hidden inode. -/
def cpupOrLink (o : CpupEnv) (mode : Nat) (io : List Int) (app : AppendOps) (hasAlias : Bool) (i : Nat) (dst : π)
    (bdst bsrc : Nat) (s : PlinkSb π) : Option (Int × PlinkSb π) :=
  let ii := s.ii i
  let hInode := if ii.iiBstart ≤ bdst then (ii.iiHinode bdst).hiInode else none
  match hInode.filter fun h => (s.br bdst).nlink h ≠ 0 with
  | none => s.cpupSingle o mode io app i dst bdst bsrc
  | some h =>
    if hasAlias then
      let l := ask io
      some (l.1, if l.1 = 0 then s.link bdst dst h else s)
    else some (- EIO, s)

/-- `au_cpup_or_link` -/
def auCpupOrLink (o : CpupEnv) (mode : Nat) (io : List Int) (app app' : AppendOps) (hasAlias : Bool) (i : Nat)
    (dst : π) (bdst bsrc : Nat) (s : PlinkSb π) : Option (Int × PlinkSb π) :=
  match s.cpupOrLink o mode io app hasAlias i dst bdst bsrc with
  | none => none
  | some (err, s) =>
    if err ≠ 0 then some (err, s)
    else
      -- the inode of the new name
      match (s.br bdst).names.find dst with
      | none => none
      | some h => (s.auPlinkAppend app'.alloc app'.io i bdst h).map fun s => (0, s)

/-- `vfs_link` of the source to the new name, both on the target branch. -/
def linkSrc (io : List Int) (src dst : π) (bdst : Nat) (s : PlinkSb π) : Option (Int × PlinkSb π) :=
  match (s.br bdst).names.find src with
  | none => none
  | some h =>
    let l := ask io
    some (l.1, if l.1 = 0 then s.link bdst dst h else s)

/-- `aufs_link`, from the test of the option to the new name: `src` is a name of inode `i` on branch `bsrc`. -/
def linkNames (o : CpupEnv) (mode : Nat) (io : List Int) (app app' : AppendOps) (hasAlias : Bool) (io' : List Int)
    (i : Nat) (src dst : π) (bdst bsrc : Nat) (s : PlinkSb π) : Option (Int × PlinkSb π) :=
  if o.plink then
    if bdst < bsrc then s.auCpupOrLink o mode io app app' hasAlias i dst bdst bsrc
    else s.linkSrc io' src dst bdst
  else if bdst < bsrc then
    -- au_cpup_before_link
    match s.cpupSingle o mode io app i src bdst bsrc with
    | none => none
    | some (err, s) => if err ≠ 0 then some (err, s) else s.linkSrc io' src dst bdst
  else s.linkSrc io' src dst bdst

end PlinkSb

end KernelPatches.Aufs
