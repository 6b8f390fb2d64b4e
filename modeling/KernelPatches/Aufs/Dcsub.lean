/-
  aufs: the dentries below a directory, collected on pages.

  `au_dcsub_pages` walks the dentry cache below a root without a stack: it goes down into a child that has children
  of its own (`repeat`), and when it is through with a directory it goes back to the parent and on with the next
  sibling (`resume`).  The dentries that are in use and pass the test are put on pages, `au_dpages_append`.

  A directory is put on a page between the two labels: where the walk comes to it first, and also each time it
  comes back to it from a child.  So that a directory is collected once only if the walk goes down from it to no
  child.

  * `auDpagesAppend`, `walk`, `auDcsubPages`
                              — the calls;
  * `DentryTree`              — a root with a finite tree below it;
  * `walk_scan`               — the walk from a child on to the end of the list, by induction on the tree;
  * `auDcsubPages_run`        — the walk comes to its end, and what is on the pages then, in order (`collected`);
  * `Collects`                — what it is to collect;
  * `auDcsubPages_collects_iff`
                              — it does, if and only if no directory that is collected is left for a child
                                (`RecordsOnce`).
-/
import KernelPatches.Arch
import KernelPatches.Lib.Forest
import KernelPatches.Aufs.Finfo

namespace KernelPatches.Aufs.Dcsub

open KernelPatches.Lib

/-! ## The dentry cache and the pages -/

/-- The dentries by their addresses: `d_subdirs`, `d_parent`, whether there is an inode, `d_count` and `d_sb`. -/
structure Dcache where
  dSubdirs : Nat → List Nat
  dParent : Nat → Nat
  dInode : Nat → Bool
  dCount : Nat → Nat
  dSb : Nat → Nat

/-- IS_ROOT -/
def Dcache.isRoot (c : Dcache) (d : Nat) : Bool := c.dParent d = d

/-- `D_CHILD.next`: the next in the list of the parent, or none when it is the head of the list again. -/
def Dcache.dChildNext (c : Dcache) (d : Nat) : Option Nat :=
  ((c.dSubdirs (c.dParent d)).dropWhile (· ≠ d)).tail.head?

/-- `struct au_dcsub_pages`: the pages before the last one, and the last one. -/
structure AuDcsubPages where
  dpages : List (List Nat)
  dpage : List Nat

namespace AuDcsubPages

/-- `au_dpages_init` -/
def init : AuDcsubPages := ⟨[], []⟩

def ndpage (dp : AuDcsubPages) : Nat := dp.dpages.length + 1

/-- The dentries on the pages, page by page. -/
def dentries (dp : AuDcsubPages) : List Nat := dp.dpages.flatten ++ dp.dpage

end AuDcsubPages

/-- `PAGE_SIZE / sizeof(dentry)` -/
def dentriesPerPage (A : Arch) : Nat := pageSize / (A.bitsPerLong / 8)

/-- `au_dpages_append`, where `alloc` says whether another page is got after so many. -/
def auDpagesAppend (A : Arch) (alloc : Nat → Bool) (dp : AuDcsubPages) (d : Nat) : Int × AuDcsubPages :=
  if dentriesPerPage A ≤ dp.dpage.length then
    if alloc dp.ndpage then (0, ⟨dp.dpages ++ [dp.dpage], [d]⟩) else (- ENOMEM, dp)
  else (0, { dp with dpage := dp.dpage ++ [d] })

/-! ## The walk -/

/-- What `au_dcsub_pages` is called with: the cache, `root`, and the test, if there is one. -/
structure DcsubArgs where
  arch : Arch
  alloc : Nat → Bool
  cache : Dcache
  root : Nat
  test : Option (Nat → Bool)

namespace DcsubArgs

/-- The checks that are made of every dentry. -/
def inUse (a : DcsubArgs) (d : Nat) : Bool :=
  a.cache.dSb d = a.cache.dSb a.root && a.cache.dCount d ≠ 0 && a.test.all (· d)

/-- Those that are made of a directory, between `resume` and the loop. -/
def recorded (a : DcsubArgs) (d : Nat) : Bool := a.inUse d && !a.cache.isRoot d && a.cache.dInode d

end DcsubArgs

/-- Where the walk is: at `repeat`, at `resume`, or in the loop, with `this_parent` and `next`. -/
inductive Label where
  | again (thisParent : Nat)
  | resume (thisParent : Nat) (next : Option Nat)
  | scan (thisParent : Nat) (next : Option Nat)

/-- The walk, followed for a number of steps. -/
def walk (a : DcsubArgs) : Nat → Label → AuDcsubPages → Option (Int × AuDcsubPages)
  | 0, _, _ => none
  | fuel + 1, .again p, dp => walk a fuel (.resume p (a.cache.dSubdirs p).head?) dp
  | fuel + 1, .resume p next, dp =>
    if a.recorded p then
      let r := auDpagesAppend a.arch a.alloc dp p
      if r.1 ≠ 0 then some r else walk a fuel (.scan p next) r.2
    else walk a fuel (.scan p next) dp
  | fuel + 1, .scan p none, dp =>
    if p ≠ a.root then walk a fuel (.resume (a.cache.dParent p) (a.cache.dChildNext p)) dp else some (0, dp)
  | fuel + 1, .scan p (some d), dp =>
    let next := a.cache.dChildNext d
    if a.cache.dInode d = false then walk a fuel (.scan p next) dp
    else if a.cache.dSubdirs d ≠ [] then walk a fuel (.again d) dp
    else if a.inUse d then
      let r := auDpagesAppend a.arch a.alloc dp d
      if r.1 ≠ 0 then some r else walk a fuel (.scan p next) r.2
    else walk a fuel (.scan p next) dp

/-- `au_dcsub_pages` -/
def auDcsubPages (a : DcsubArgs) (fuel : Nat) (dp : AuDcsubPages) : Option (Int × AuDcsubPages) :=
  walk a fuel (.again a.root) dp

/-! ## The pages -/

/-- All pages but the last are full, and the last one is not overfull. -/
structure AuDcsubPages.Tight (A : Arch) (dp : AuDcsubPages) : Prop where
  full : ∀ page ∈ dp.dpages, page.length = dentriesPerPage A
  last : dp.dpage.length ≤ dentriesPerPage A

section

variable {A : Arch} {alloc : Nat → Bool} {dp : AuDcsubPages}

theorem dentriesPerPage_pos (A : Arch) : 0 < dentriesPerPage A := by
  cases A <;> decide

theorem AuDcsubPages.init_tight (A : Arch) : AuDcsubPages.init.Tight A :=
  ⟨fun _ h => absurd h List.not_mem_nil, Nat.zero_le _⟩

/-- **A dentry is put on a page**, behind the others; a new page is taken when the last one is full. -/
theorem auDpagesAppend_spec (halloc : ∀ n, alloc n = true) (d : Nat) : (auDpagesAppend A alloc dp d).1 = 0 ∧
    (auDpagesAppend A alloc dp d).2.dentries = dp.dentries ++ [d] ∧
    (dp.Tight A → (auDpagesAppend A alloc dp d).2.Tight A) := by
  have hpos := dentriesPerPage_pos A
  unfold auDpagesAppend
  by_cases hfull : dentriesPerPage A ≤ dp.dpage.length
  · rw [if_pos hfull, halloc, if_pos rfl]
    refine ⟨rfl, ?_, fun h => ⟨fun page hpage => ?_, ?_⟩⟩
    · show (dp.dpages ++ [dp.dpage]).flatten ++ [d] = dp.dpages.flatten ++ dp.dpage ++ [d]
      rw [List.flatten_append, List.flatten_singleton]
    · rcases List.mem_append.mp hpage with hpage | hpage
      · exact h.full page hpage
      · rw [List.mem_singleton.mp hpage]
        exact le_antisymm h.last hfull
    · show 1 ≤ dentriesPerPage A
      omega
  · rw [if_neg hfull]
    refine ⟨rfl, ?_, fun h => ⟨h.full, ?_⟩⟩
    · show dp.dpages.flatten ++ (dp.dpage ++ [d]) = dp.dpages.flatten ++ dp.dpage ++ [d]
      rw [List.append_assoc]
    · show (dp.dpage ++ [d]).length ≤ dentriesPerPage A
      rw [List.length_append, List.length_singleton]
      omega

end

/-! ## Where the walk comes by -/

/-- A root with a finite tree below it: the dentries of the tree are different ones, each is in the list of its
    parent, and all are of one super block. -/
structure DentryTree (c : Dcache) (root : Nat) where
  below : Forest Nat
  heads : c.dSubdirs root = below.heads
  spans : below.Spans c.dSubdirs
  nodup : (root :: below.nodes).Nodup
  parent : ∀ p d, p ∈ root :: below.nodes → d ∈ c.dSubdirs p → c.dParent d = p
  sb : ∀ d ∈ below.nodes, c.dSb d = c.dSb root

namespace DcsubArgs

/-- What is put on the pages for a directory. -/
def record (a : DcsubArgs) (d : Nat) : List Nat := if a.recorded d then [d] else []

/-- What is put on the pages in the loop over the children of `p`: for each that has children, also `p` again. -/
def collectedBelow (a : DcsubArgs) (p : Nat) : Forest Nat → List Nat
  | .nil => []
  | .cons d below rest =>
    (if a.cache.dInode d then
      a.record d ++ a.collectedBelow d below ++ (if below.heads = [] then [] else a.record p)
    else []) ++ a.collectedBelow p rest

/-- And in the whole walk. -/
def collected (a : DcsubArgs) (below : Forest Nat) : List Nat := a.record a.root ++ a.collectedBelow a.root below

/-- The pages with some more dentries on them. -/
def put (a : DcsubArgs) (dp : AuDcsubPages) (ds : List Nat) : AuDcsubPages :=
  ds.foldl (fun dp d => (auDpagesAppend a.arch a.alloc dp d).2) dp

/-- The walk comes from one place to another one. -/
def Goes (a : DcsubArgs) (l : Label) (dp : AuDcsubPages) (l' : Label) (dp' : AuDcsubPages) : Prop :=
  ∃ steps, ∀ fuel, walk a (fuel + steps) l dp = walk a fuel l' dp'

end DcsubArgs

section

variable {a : DcsubArgs} {dp dp' dp'' : AuDcsubPages} {l l' l'' : Label} {p d : Nat} {next : Option Nat}

theorem DcsubArgs.Goes.trans (h : a.Goes l dp l' dp') (h' : a.Goes l' dp' l'' dp'') : a.Goes l dp l'' dp'' := by
  obtain ⟨n, hn⟩ := h
  obtain ⟨m, hm⟩ := h'
  refine ⟨m + n, fun fuel => ?_⟩
  rw [← Nat.add_assoc, hn, hm]

theorem DcsubArgs.put_append (ds ds' : List Nat) : a.put dp (ds ++ ds') = a.put (a.put dp ds) ds' := List.foldl_append

/-- What is on the pages then. -/
theorem DcsubArgs.put_spec (halloc : ∀ n, a.alloc n = true) : ∀ (ds : List Nat) (dp : AuDcsubPages),
    (a.put dp ds).dentries = dp.dentries ++ ds ∧ (dp.Tight a.arch → (a.put dp ds).Tight a.arch) := by
  intro ds
  induction ds with
  | nil => exact fun dp => ⟨(List.append_nil _).symm, id⟩
  | cons d ds ih =>
    intro dp
    obtain ⟨-, hone, htight⟩ := @auDpagesAppend_spec a.arch a.alloc dp halloc d
    obtain ⟨hmore, htight'⟩ := ih (auDpagesAppend a.arch a.alloc dp d).2
    refine ⟨?_, fun h => htight' (htight h)⟩
    show (a.put (auDpagesAppend a.arch a.alloc dp d).2 ds).dentries = _
    rw [hmore, hone, List.append_assoc]
    rfl

theorem goes_again : a.Goes (.again p) dp (.resume p (a.cache.dSubdirs p).head?) dp := ⟨1, fun _ => rfl⟩

/-- A directory is recorded, and then its children are looked at. -/
theorem goes_resume (halloc : ∀ n, a.alloc n = true) :
    a.Goes (.resume p next) dp (.scan p next) (a.put dp (a.record p)) := by
  refine ⟨1, fun fuel => ?_⟩
  rw [walk]
  unfold DcsubArgs.record
  by_cases h : a.recorded p = true
  · obtain ⟨hret, -⟩ := @auDpagesAppend_spec a.arch a.alloc dp halloc p
    rw [if_pos h, if_pos h]
    dsimp only
    rw [hret, if_neg (not_not.mpr rfl)]
    rfl
  · rw [if_neg h, if_neg h]
    rfl

/-- The end of the list of a directory below the root. -/
theorem goes_up (h : d ≠ a.root) :
    a.Goes (.scan d none) dp (.resume (a.cache.dParent d) (a.cache.dChildNext d)) dp := by
  refine ⟨1, fun fuel => ?_⟩
  rw [walk, if_pos h]

theorem goes_negative (h : a.cache.dInode d = false) :
    a.Goes (.scan p (some d)) dp (.scan p (a.cache.dChildNext d)) dp := by
  refine ⟨1, fun fuel => ?_⟩
  rw [walk, if_pos h]

theorem goes_down (h : a.cache.dInode d = true) (hs : a.cache.dSubdirs d ≠ []) :
    a.Goes (.scan p (some d)) dp (.again d) dp := by
  refine ⟨1, fun fuel => ?_⟩
  rw [walk, if_neg (by rw [h]; exact Bool.noConfusion), if_pos hs]

/-- A child without children, which is no root. -/
theorem goes_leaf (halloc : ∀ n, a.alloc n = true) (h : a.cache.dInode d = true) (hs : a.cache.dSubdirs d = [])
    (hroot : a.cache.isRoot d = false) :
    a.Goes (.scan p (some d)) dp (.scan p (a.cache.dChildNext d)) (a.put dp (a.record d)) := by
  refine ⟨1, fun fuel => ?_⟩
  have hsame : a.recorded d = a.inUse d := by
    unfold DcsubArgs.recorded
    rw [hroot, h]
    simp
  rw [walk, if_neg (by rw [h]; exact Bool.noConfusion), if_neg (not_not.mpr hs)]
  unfold DcsubArgs.record
  rw [hsame]
  by_cases hu : a.inUse d = true
  · obtain ⟨hret, -⟩ := @auDpagesAppend_spec a.arch a.alloc dp halloc d
    rw [if_pos hu, if_pos hu]
    dsimp only
    rw [hret, if_neg (not_not.mpr rfl)]
    rfl
  · rw [if_neg hu, if_neg hu]
    rfl

/-- The next one in the list. -/
theorem dChildNext_eq {c : Dcache} {before rest : List Nat} (hp : c.dParent d = p)
    (hs : c.dSubdirs p = before ++ d :: rest) (hd : d ∉ before) : c.dChildNext d = rest.head? := by
  unfold Dcache.dChildNext
  rw [hp, hs, List.dropWhile_append_of_pos]
  · simp
  · intro x hx
    have hne : x ≠ d := by
      rintro rfl
      exact hd hx
    simpa using hne

end

/-! ## The walk comes to its end -/

section

variable {a : DcsubArgs}

/-- **The loop over the children** of a directory, from one of them on: what it puts on the pages, by induction on
    the children that are left, with all that is below them. -/
theorem walk_scan (T : DentryTree a.cache a.root) (halloc : ∀ n, a.alloc n = true) :
    ∀ (f : Forest Nat) (p : Nat) (before : List Nat) (dp : AuDcsubPages), p ∈ a.root :: T.below.nodes →
      f.Spans a.cache.dSubdirs → f.nodes ⊆ T.below.nodes → (p :: f.nodes).Nodup → (before ++ f.heads).Nodup →
      a.cache.dSubdirs p = before ++ f.heads →
      a.Goes (.scan p f.heads.head?) dp (.scan p none) (a.put dp (a.collectedBelow p f)) := by
  intro f
  induction f with
  | nil => exact fun p before dp _ _ _ _ _ _ => ⟨0, fun _ => rfl⟩
  | cons d below rest ihb ihr =>
    intro p before dp hp hspans hsub hnodup hlist hchildren
    obtain ⟨hd, hbelow, hrest⟩ := hspans
    obtain ⟨hpn, hdn⟩ := List.nodup_cons.mp hnodup
    obtain ⟨hdn', hmore⟩ := List.nodup_cons.mp hdn
    obtain ⟨hnb, hnr, -⟩ := List.nodup_append.mp hmore
    -- where the child is
    have hdT : d ∈ T.below.nodes := hsub List.mem_cons_self
    have hdroot : d ≠ a.root := by
      rintro rfl
      exact (List.nodup_cons.mp T.nodup).1 hdT
    have hparent : a.cache.dParent d = p :=
      T.parent p d hp (by rw [hchildren]; exact List.mem_append_right _ List.mem_cons_self)
    have hisroot : a.cache.isRoot d = false := by
      unfold Dcache.isRoot
      rw [decide_eq_false_iff_not, hparent]
      rintro rfl
      exact hpn List.mem_cons_self
    have hnext : a.cache.dChildNext d = rest.heads.head? :=
      dChildNext_eq hparent hchildren fun hmem =>
        (List.nodup_append.mp hlist).2.2 d hmem d List.mem_cons_self rfl
    -- the rest of the list
    have htail : ∀ dp, a.Goes (.scan p rest.heads.head?) dp (.scan p none) (a.put dp (a.collectedBelow p rest)) := by
      intro dp
      have hassoc : before ++ (Forest.cons d below rest).heads = (before ++ [d]) ++ rest.heads := by
        rw [List.append_assoc]
        rfl
      refine ihr p (before ++ [d]) dp hp hrest (fun x hx => ?_) (List.nodup_cons.mpr ⟨fun hmem => ?_, hnr⟩) ?_ ?_
      · exact hsub (List.mem_cons_of_mem _ (List.mem_append_right _ hx))
      · exact hpn (List.mem_cons_of_mem _ (List.mem_append_right _ hmem))
      · rw [← hassoc]
        exact hlist
      · rw [← hassoc]
        exact hchildren
    show a.Goes (.scan p (some d)) dp _ _
    unfold DcsubArgs.collectedBelow
    rw [DcsubArgs.put_append]
    cases hi : a.cache.dInode d with
    | false =>
      have hstep := @goes_negative a dp p d hi
      rw [hnext] at hstep
      rw [if_neg Bool.false_ne_true]
      exact hstep.trans (htail dp)
    | true =>
      rw [if_pos rfl]
      by_cases hs : below.heads = []
      · -- nothing below it
        have hnone : a.collectedBelow d below = [] := by
          cases below with
          | nil => rfl
          | cons x b r => exact absurd hs (List.cons_ne_nil _ _)
        have hstep := @goes_leaf a dp p d halloc hi (hd.trans hs) hisroot
        rw [hnext] at hstep
        rw [if_pos hs, hnone, List.append_nil, List.append_nil]
        exact hstep.trans (htail _)
      · -- down, over the list of the child, and back
        rw [if_neg hs, DcsubArgs.put_append, DcsubArgs.put_append]
        have hdown := @goes_down a dp p d hi (by rw [hd]; exact hs)
        have hrecord := @goes_resume a dp d (a.cache.dSubdirs d).head? halloc
        have hscan := ihb d [] (a.put dp (a.record d)) (List.mem_cons_of_mem _ hdT) hbelow
          (fun x hx => hsub (List.mem_cons_of_mem _ (List.mem_append_left _ hx)))
          (List.nodup_cons.mpr ⟨fun hmem => hdn' (List.mem_append_left _ hmem), hnb⟩)
          ((Forest.heads_sublist below).nodup hnb) hd
        rw [← hd] at hscan
        have hup := @goes_up a (a.put (a.put dp (a.record d)) (a.collectedBelow d below)) d hdroot
        rw [hparent, hnext] at hup
        have hagain := @goes_resume a (a.put (a.put dp (a.record d)) (a.collectedBelow d below)) p
          rest.heads.head? halloc
        exact ((((hdown.trans goes_again).trans hrecord).trans hscan).trans (hup.trans hagain)).trans (htail _)

/-- **The walk comes to its end**, and what it has collected is on the pages, which are full but for the last. -/
theorem auDcsubPages_run (T : DentryTree a.cache a.root) (halloc : ∀ n, a.alloc n = true) :
    ∃ bound dp, (∀ fuel, bound < fuel → auDcsubPages a fuel .init = some (0, dp)) ∧
      dp.dentries = a.collected T.below ∧ dp.Tight a.arch := by
  have hrecord := @goes_resume a .init a.root (a.cache.dSubdirs a.root).head? halloc
  have hscan := walk_scan T halloc T.below a.root [] (a.put .init (a.record a.root)) List.mem_cons_self T.spans
    (fun x hx => hx) T.nodup ((Forest.heads_sublist _).nodup (List.nodup_cons.mp T.nodup).2) T.heads
  rw [← T.heads] at hscan
  obtain ⟨steps, hgo⟩ := (goes_again.trans hrecord).trans hscan
  rw [← DcsubArgs.put_append] at hgo
  obtain ⟨hpages, htight⟩ := DcsubArgs.put_spec halloc (a.collected T.below) .init
  refine ⟨steps, _, fun fuel hfuel => ?_, hpages, htight (AuDcsubPages.init_tight _)⟩
  obtain ⟨left, rfl⟩ : ∃ left, fuel = (left + 1) + steps := ⟨fuel - steps - 1, by omega⟩
  unfold auDcsubPages
  rw [hgo, walk, if_neg (not_not.mpr rfl)]
  rfl

end

/-! ## What is collected -/

/-- **What it is to collect**: the dentries below the root, with it, that are positive along the whole path, in use
    and no root, and that pass the test; each once, and none before one that it is below. -/
structure Collects (a : DcsubArgs) (ds : List Nat) : Prop where
  mem : ∀ d, d ∈ ds ↔ (a.cache.dInode a.root = true ∧ Forest.Reaches a.cache.dSubdirs a.cache.dInode a.root d) ∧
    a.cache.dCount d ≠ 0 ∧ a.cache.dParent d ≠ d ∧ a.test.all (· d) = true
  nodup : ds.Nodup
  order : ds.Pairwise fun d d' => ¬ Forest.Below a.cache.dSubdirs d' d

/-- **When it does**: the walk does not go down from a directory that is collected, as its positive children have no
    children; and the root is positive, or nothing is collected. -/
structure RecordsOnce (a : DcsubArgs) : Prop where
  left : ∀ p, Forest.Reaches a.cache.dSubdirs a.cache.dInode a.root p → a.recorded p = true →
    ∀ d ∈ a.cache.dSubdirs p, a.cache.dInode d = true → a.cache.dSubdirs d = []
  root : a.cache.dInode a.root = true ∨
    ∀ d, Forest.Reaches a.cache.dSubdirs a.cache.dInode a.root d → a.recorded d = false

/-- The same for some of the children of `p` and what is below them. -/
structure Leaves (a : DcsubArgs) (p : Nat) (f : Forest Nat) : Prop where
  own : a.recorded p = true → ∀ d ∈ f.heads, a.cache.dInode d = true → a.cache.dSubdirs d = []
  below : ∀ q ∈ f.kept a.cache.dInode, a.recorded q = true →
    ∀ d ∈ a.cache.dSubdirs q, a.cache.dInode d = true → a.cache.dSubdirs d = []

section

variable {a : DcsubArgs} {p x : Nat} {f : Forest Nat}

theorem mem_record : x ∈ a.record p ↔ x = p ∧ a.recorded p = true := by
  unfold DcsubArgs.record
  split
  · rename_i h
    rw [List.mem_singleton]
    exact ⟨fun hx => ⟨hx, h⟩, fun hx => hx.1⟩
  · rename_i h
    exact ⟨fun hx => absurd hx List.not_mem_nil, fun hx => absurd hx.2 h⟩

/-- Nothing else is put on the pages. -/
theorem of_mem_collectedBelow (hx : x ∈ a.collectedBelow p f) :
    a.recorded x = true ∧ (x = p ∨ x ∈ f.kept a.cache.dInode) := by
  induction f generalizing p with
  | nil => cases hx
  | cons d below rest ihb ihr =>
    unfold DcsubArgs.collectedBelow at hx
    unfold Forest.kept
    rcases List.mem_append.mp hx with hx | hx
    · split at hx
      · rename_i hi
        rw [if_pos hi]
        rcases List.mem_append.mp hx with hx | hx
        · rcases List.mem_append.mp hx with hx | hx
          · obtain ⟨rfl, hrec⟩ := mem_record.mp hx
            exact ⟨hrec, Or.inr (List.mem_append_left _ List.mem_cons_self)⟩
          · obtain ⟨hrec, rfl | hmem⟩ := ihb hx
            · exact ⟨hrec, Or.inr (List.mem_append_left _ List.mem_cons_self)⟩
            · exact ⟨hrec, Or.inr (List.mem_append_left _ (List.mem_cons_of_mem _ hmem))⟩
        · split at hx
          · cases hx
          · obtain ⟨rfl, hrec⟩ := mem_record.mp hx
            exact ⟨hrec, Or.inl rfl⟩
      · cases hx
    · obtain ⟨hrec, rfl | hmem⟩ := ihr hx
      · exact ⟨hrec, Or.inl rfl⟩
      · exact ⟨hrec, Or.inr (List.mem_append_right _ hmem)⟩

theorem mem_collectedBelow (hx : x ∈ f.kept a.cache.dInode) (hr : a.recorded x = true) : x ∈ a.collectedBelow p f := by
  induction f generalizing p with
  | nil => cases hx
  | cons d below rest ihb ihr =>
    unfold Forest.kept at hx
    unfold DcsubArgs.collectedBelow
    rcases List.mem_append.mp hx with hx | hx
    · split at hx
      · rename_i hi
        rw [if_pos hi]
        apply List.mem_append_left
        apply List.mem_append_left
        rcases List.mem_cons.mp hx with rfl | hx
        · exact List.mem_append_left _ (mem_record.mpr ⟨rfl, hr⟩)
        · exact List.mem_append_right _ (ihb hx)
      · cases hx
    · exact List.mem_append_right _ (ihr hx)

/-- **What is collected at all** is what the walk comes to and records. -/
theorem mem_collected : x ∈ a.collected f ↔ x ∈ a.root :: f.kept a.cache.dInode ∧ a.recorded x = true := by
  unfold DcsubArgs.collected
  rw [List.mem_append, List.mem_cons]
  constructor
  · rintro (hx | hx)
    · obtain ⟨rfl, hrec⟩ := mem_record.mp hx
      exact ⟨Or.inl rfl, hrec⟩
    · obtain ⟨hrec, hmem⟩ := of_mem_collectedBelow hx
      exact ⟨hmem, hrec⟩
  · rintro ⟨rfl | hmem, hrec⟩
    · exact Or.inl (mem_record.mpr ⟨rfl, hrec⟩)
    · exact Or.inr (mem_collectedBelow hmem hrec)

/-- **Collected once**: no directory that is collected has a child the walk goes down to, as it would be collected
    again afterwards. -/
theorem leaves_of_nodup (hf : f.Spans a.cache.dSubdirs) (hn : (a.record p ++ a.collectedBelow p f).Nodup) :
    Leaves a p f := by
  induction f generalizing p with
  | nil => exact ⟨fun _ d hd => absurd hd List.not_mem_nil, fun q hq => absurd hq List.not_mem_nil⟩
  | cons d below rest ihb ihr =>
    obtain ⟨hd, hbelow, hrest⟩ := hf
    unfold DcsubArgs.collectedBelow at hn
    have hnext := ihr hrest (((List.sublist_append_right _ _).append_left _).nodup hn)
    cases hi : a.cache.dInode d with
    | false =>
      refine ⟨fun hp x hx hxi => ?_, fun q hq => hnext.below q ?_⟩
      · rcases List.mem_cons.mp hx with rfl | hx
        · rw [hi] at hxi
          cases hxi
        · exact hnext.own hp x hx hxi
      · rw [Forest.kept_cons, hi, if_neg Bool.false_ne_true] at hq
        exact hq
    | true =>
      rw [hi, if_pos rfl] at hn
      obtain ⟨-, hmore, hdis⟩ := List.nodup_append.mp hn
      obtain ⟨hfirst, -, -⟩ := List.nodup_append.mp hmore
      have hdown := ihb hbelow (List.nodup_append.mp hfirst).1
      refine ⟨fun hp x hx hxi => ?_, fun q hq hqr => ?_⟩
      · rcases List.mem_cons.mp hx with rfl | hx
        · -- it would be here and there
          by_contra hne
          rw [hd] at hne
          rw [if_neg hne] at hdis
          have hmem : p ∈ a.record p := mem_record.mpr ⟨rfl, hp⟩
          exact hdis p hmem p (List.mem_append_left _ (List.mem_append_right _ hmem)) rfl
        · exact hnext.own hp x hx hxi
      · rw [Forest.kept_cons, hi, if_pos rfl] at hq
        rcases List.mem_append.mp hq with hq | hq
        · rcases List.mem_cons.mp hq with rfl | hq
          · rw [hd]
            exact hdown.own hqr
          · exact hdown.below q hq hqr
        · exact hnext.below q hq hqr

/-- **In preorder**, when none has. -/
theorem collectedBelow_eq (hf : f.Spans a.cache.dSubdirs) (h : Leaves a p f) :
    a.collectedBelow p f = (f.kept a.cache.dInode).filter a.recorded := by
  induction f generalizing p with
  | nil => rfl
  | cons d below rest ihb ihr =>
    obtain ⟨hd, hbelow, hrest⟩ := hf
    have hnext : a.collectedBelow p rest = _ := ihr hrest
      ⟨fun hp x hx => h.own hp x (List.mem_cons_of_mem _ hx), fun q hq => h.below q (List.mem_append_right _ hq)⟩
    unfold DcsubArgs.collectedBelow Forest.kept
    rw [hnext, List.filter_append]
    cases hi : a.cache.dInode d with
    | false => rfl
    | true =>
      have hkept : (Forest.cons d below rest).kept a.cache.dInode =
          d :: below.kept a.cache.dInode ++ rest.kept a.cache.dInode := by
        rw [Forest.kept_cons, hi, if_pos rfl]
      have hdown : a.collectedBelow d below = _ := ihb hbelow
        ⟨fun hr x hx => h.below d (by rw [hkept]; exact List.mem_cons_self) hr x (by rw [hd]; exact hx),
          fun q hq => h.below q (by rw [hkept]; exact List.mem_cons_of_mem _ (List.mem_append_left _ hq))⟩
      have hagain : (if below.heads = [] then [] else a.record p) = [] := by
        by_cases hnil : below.heads = []
        · rw [if_pos hnil]
        · rw [if_neg hnil]
          unfold DcsubArgs.record
          rw [if_neg fun hp => hnil (hd.symm.trans (h.own hp d List.mem_cons_self hi))]
      rw [if_pos rfl, if_pos rfl, hagain, hdown, List.append_nil, List.filter_cons]
      unfold DcsubArgs.record
      split <;> rfl

/-- **What is collected is what is to be collected** if and only if no directory is recorded twice. -/
theorem collects_iff (T : DentryTree a.cache a.root) : Collects a (a.collected T.below) ↔ RecordsOnce a := by
  have hreach : ∀ d, d ∈ a.root :: T.below.kept a.cache.dInode ↔
      Forest.Reaches a.cache.dSubdirs a.cache.dInode a.root d := fun d => Forest.mem_kept_iff T.spans T.heads
  constructor
  · intro h
    have hleaves := leaves_of_nodup T.spans h.nodup
    refine ⟨fun p hp hrec => ?_, ?_⟩
    · rcases List.mem_cons.mp ((hreach p).mpr hp) with rfl | hp
      · rw [T.heads]
        exact hleaves.own hrec
      · exact hleaves.below p hp hrec
    · cases hi : a.cache.dInode a.root with
      | true => exact Or.inl rfl
      | false =>
        refine Or.inr fun d hd => ?_
        by_contra hrec
        rw [Bool.not_eq_false] at hrec
        have hroot := ((h.mem d).mp (mem_collected.mpr ⟨(hreach d).mpr hd, hrec⟩)).1.1
        rw [hi] at hroot
        cases hroot
  · intro h
    have heq : a.collected T.below = (a.root :: T.below.kept a.cache.dInode).filter a.recorded := by
      unfold DcsubArgs.collected
      rw [collectedBelow_eq T.spans ⟨fun hr d hd => ?_, fun q hq => ?_⟩, List.filter_cons]
      · unfold DcsubArgs.record
        split <;> rfl
      · rw [← T.heads] at hd
        exact h.left a.root Relation.ReflTransGen.refl hr d hd
      · exact h.left q ((hreach q).mp (List.mem_cons_of_mem _ hq))
    have hsub : List.Sublist (a.collected T.below) (a.root :: T.below.nodes) := by
      rw [heq]
      exact List.filter_sublist.trans ((Forest.kept_sublist _ _).cons_cons _)
    refine ⟨fun d => ?_, hsub.nodup T.nodup, ?_⟩
    · rw [mem_collected, hreach]
      constructor
      · rintro ⟨hd, hrec⟩
        refine ⟨⟨?_, hd⟩, ?_⟩
        · rcases h.root with hroot | hnone
          · exact hroot
          · rw [hnone d hd] at hrec
            cases hrec
        · unfold DcsubArgs.recorded DcsubArgs.inUse Dcache.isRoot at hrec
          simp only [Bool.and_eq_true, decide_eq_true_eq, Bool.not_eq_true', decide_eq_false_iff_not] at hrec
          exact ⟨hrec.1.1.1.2, hrec.1.2, hrec.1.1.2⟩
      · rintro ⟨⟨hroot, hd⟩, hcount, hparent, htest⟩
        refine ⟨hd, ?_⟩
        have hat : a.cache.dInode d = true ∧ a.cache.dSb d = a.cache.dSb a.root := by
          rcases List.mem_cons.mp ((hreach d).mpr hd) with rfl | hk
          · exact ⟨hroot, rfl⟩
          · exact ⟨Forest.keep_of_mem_kept hk, T.sb d ((Forest.kept_sublist _ _).subset hk)⟩
        unfold DcsubArgs.recorded DcsubArgs.inUse Dcache.isRoot
        simp only [Bool.and_eq_true, decide_eq_true_eq, Bool.not_eq_true', decide_eq_false_iff_not]
        exact ⟨⟨⟨⟨hat.2, hcount⟩, htest⟩, hparent⟩, hat.1⟩
    · have hwhole : (Forest.cons a.root T.below .nil).Spans a.cache.dSubdirs := ⟨T.heads, T.spans, trivial⟩
      have hnodes : (Forest.cons a.root T.below .nil).nodes = a.root :: T.below.nodes := by
        show a.root :: (T.below.nodes ++ []) = _
        rw [List.append_nil]
      have hpairs := Forest.nodes_pairwise hwhole (by rw [hnodes]; exact T.nodup)
      rw [hnodes] at hpairs
      exact hpairs.sublist hsub

/-- **The walk ends with just the dentries that are to be collected on the pages** if and only if no directory that is
    collected is left for a child. -/
theorem auDcsubPages_collects_iff (T : DentryTree a.cache a.root) (halloc : ∀ n, a.alloc n = true) :
    (∃ bound dp, (∀ fuel, bound < fuel → auDcsubPages a fuel .init = some (0, dp)) ∧ dp.Tight a.arch ∧
      Collects a dp.dentries) ↔ RecordsOnce a := by
  obtain ⟨bound, dp, hrun, hpages, htight⟩ := auDcsubPages_run T halloc
  rw [← collects_iff T, ← hpages]
  constructor
  · rintro ⟨bound', dp', hrun', -, hcollects⟩
    have hsame := (hrun (bound + bound' + 1) (by omega)).symm.trans (hrun' (bound + bound' + 1) (by omega))
    obtain rfl : dp = dp' := congrArg Prod.snd (Option.some.inj hsame)
    exact hcollects
  · intro h
    exact ⟨bound, dp, hrun, htight, h⟩

end

/-! ## A directory in a directory -/

/-- A file system root, and below it one dentry in the other, so many, all in use. -/
def chain (n : Nat) : DcsubArgs where
  arch := .ilp32
  alloc _ := true
  cache := ⟨fun d => if d < n then [d + 1] else [], fun d => d - 1, fun _ => true, fun _ => 1, fun _ => 0⟩
  root := 0
  test := none

theorem chain_child {n p d : Nat} (h : d ∈ (chain n).cache.dSubdirs p) : d = p + 1 ∧ p < n := by
  have h : d ∈ (if p < n then [p + 1] else []) := h
  split at h
  · rename_i hp
    exact ⟨List.mem_singleton.mp h, hp⟩
  · cases h

/-- A directory, with a file in it. -/
def chainTree : DentryTree (chain 2).cache (chain 2).root where
  below := .cons 1 (.cons 2 .nil .nil) .nil
  heads := rfl
  spans := ⟨rfl, ⟨rfl, trivial, trivial⟩, trivial⟩
  nodup := by decide
  parent p d _ hd := by
    obtain ⟨rfl, -⟩ := chain_child hd
    exact Nat.add_sub_cancel p 1
  sb _ _ := rfl

theorem chain_recordsOnce : RecordsOnce (chain 2) where
  left p _ hrec d hd _ := by
    obtain ⟨rfl, hp⟩ := chain_child hd
    rcases Nat.eq_zero_or_pos p with rfl | hpos
    · -- the root is not recorded
      exact absurd hrec (by decide)
    · exact if_neg (by omega)
  root := Or.inl rfl

theorem chain_collects : ∃ bound dp, (∀ fuel, bound < fuel → auDcsubPages (chain 2) fuel .init = some (0, dp)) ∧
    dp.Tight .ilp32 ∧ Collects (chain 2) dp.dentries :=
  (@auDcsubPages_collects_iff (chain 2) chainTree fun _ => rfl).mpr chain_recordsOnce

/-- **Collected twice**: two directories, one in the other, with a file in the lower one. -/
theorem chain_collected_twice :
    ¬ ∃ bound dp, (∀ fuel, bound < fuel → auDcsubPages (chain 3) fuel .init = some (0, dp)) ∧
      dp.Tight .ilp32 ∧ Collects (chain 3) dp.dentries := by
  rintro ⟨bound, dp, hrun, -, hcollects⟩
  have hwalk : auDcsubPages (chain 3) (bound + 20) .init = some (0, ⟨[], [1, 2, 3, 1]⟩) := rfl
  have hsame := (hrun (bound + 20) (by omega)).symm.trans hwalk
  obtain rfl : dp = ⟨[], [1, 2, 3, 1]⟩ := congrArg Prod.snd (Option.some.inj hsame)
  exact absurd hcollects.nodup (by decide)

end KernelPatches.Aufs.Dcsub
