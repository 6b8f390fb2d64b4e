/-
  aufs: the settings of a mount, and how they are shown.

  `au_opt_simple` writes the settings that an option is for, and `verify_opts` takes one back on a mount for reading.
  `aufs_show_options` prints those that are not the default ones.  Seconds are kept as jiffies: they are
  multiplied by HZ, as an `int`, and stored in an `unsigned long`, of which the quotient is printed.

  * `Settings`, `auSiAlloc`    — the settings, and the default ones;
  * `auOptSimple`, `applyOpts` — what an option does, and all of them;
  * `showOptions`              — the string, without `si=`, `xino=` and the branches;
  * `OptsStep`                 — a mount or a remount, which may be refused half-way.
-/
import KernelPatches.Aufs.OptionsParse
import KernelPatches.Lib.Runs

namespace KernelPatches.Aufs

open KernelPatches.Lib

/-! ## Settings -/

/-- `si_mntflags`: one bit each, but for UDBA and COO. -/
structure MntFlags where
  xino : Bool
  truncXino : Bool
  udba : Udba
  shwh : Bool
  plink : Bool
  warnPerm : Bool
  dirperm1 : Bool
  dlgt : Bool
  coo : Coo
  alwaysDiropq : Bool
  refrof : Bool
  verbose : Bool
  sum : Bool
  sumW : Bool
  deriving DecidableEq, Repr

/-- AuOpt_Def -/
def mntflagsDef (cfg : OptsConfig) : MntFlags :=
  { xino := true, truncXino := false, udba := .reval, shwh := false, plink := true, warnPerm := true
    dirperm1 := false, dlgt := false, coo := .none, alwaysDiropq := cfg.compat, refrof := false
    verbose := false, sum := false, sumW := false }

/-- What options set in `struct au_sbinfo`.  The expiry and the watermark are those of `si_wbr_mfs`. -/
structure Settings where
  mntflags : MntFlags
  wbrCreate : WbrCreate
  wbrCopyup : WbrCopyup
  mfsExpire : Nat
  mfsrrWatermark : Nat
  dirwh : Nat
  rdcache : Nat
  deriving DecidableEq, Repr

/-- A value in an `unsigned long`. -/
def toUlong (A : Arch) (z : Int) : Nat := (z % 2 ^ A.bitsPerLong).toNat

/-- Seconds, times HZ. -/
@[irreducible] def jiffiesOf (cfg : OptsConfig) (sec : Int) : Nat := toUlong cfg.arch (toInt (sec * cfg.hz))

/-- AUFS_RDCACHE_DEF -/
def rdcacheDef : Int := 10

/-- AUFS_DIRWH_DEF -/
def dirwhDef : Int := 3

/-- `au_si_alloc`, which leaves the expiry and the watermark as they come. -/
def auSiAlloc (cfg : OptsConfig) (mfsExpire mfsrrWatermark : Nat) : Settings :=
  ⟨mntflagsDef cfg, .tdp, .tdp, mfsExpire, mfsrrWatermark, dirwhDef.toNat, jiffiesOf cfg rdcacheDef⟩

/-! ## What an option does -/

/-- `Opt_wbr_create` -/
def auOptWbrCreate (cfg : OptsConfig) (create : OptWbrCreate) (s : Settings) : Settings :=
  let s := { s with wbrCreate := create.wbrCreate }
  let watermark (s : Settings) := { s with mfsrrWatermark := create.mfsrrWatermark.getD s.mfsrrWatermark }
  let expire (s : Settings) := { s with mfsExpire := jiffiesOf cfg (create.mfsSecond.getD 0) }
  match create.wbrCreate with
  | .mfsrrv => expire (watermark s)
  | .mfsrr => expire (watermark s)
  | .mfs => expire s
  | .mfsv => expire s
  | .pmfs => expire s
  | .pmfsv => expire s
  | .tdp => s
  | .rr => s

/-- `au_opt_simple`, and `au_opt_xino` as far as the settings go. -/
def auOptSimple (cfg : OptsConfig) (s : Settings) (opt : AuOpt) : Settings :=
  let f := s.mntflags
  match opt.type, opt.arg with
  | .udba, .udba level => { s with mntflags := { f with udba := level } }
  | .plink, _ => { s with mntflags := { f with plink := true } }
  | .noplink, _ => { s with mntflags := { f with plink := false } }
  | .diropqA, _ => { s with mntflags := { f with alwaysDiropq := true } }
  | .diropqW, _ => { s with mntflags := { f with alwaysDiropq := false } }
  | .dlgt, _ => { s with mntflags := { f with dlgt := true } }
  | .nodlgt, _ => { s with mntflags := { f with dlgt := false } }
  | .warnPerm, _ => { s with mntflags := { f with warnPerm := true } }
  | .nowarnPerm, _ => { s with mntflags := { f with warnPerm := false } }
  | .refrof, _ => { s with mntflags := { f with refrof := true } }
  | .norefrof, _ => { s with mntflags := { f with refrof := false } }
  | .verbose, _ => { s with mntflags := { f with verbose := true } }
  | .noverbose, _ => { s with mntflags := { f with verbose := false } }
  | .sum, _ => { s with mntflags := { f with sum := true } }
  -- `wsum` goes on with what `nosum` does
  | .wsum, _ => { s with mntflags := { f with sum := false, sumW := false } }
  | .nosum, _ => { s with mntflags := { f with sum := false, sumW := false } }
  | .wbrCreate, .create create => auOptWbrCreate cfg create s
  | .wbrCopyup, .copyup policy => { s with wbrCopyup := policy }
  | .coo, .coo level => { s with mntflags := { f with coo := level } }
  | .dirwh, .int n => { s with dirwh := (n % 2 ^ 32).toNat }
  | .rdcache, .int n => { s with rdcache := jiffiesOf cfg n }
  | .truncXino, _ => { s with mntflags := { f with truncXino := true } }
  | .notruncXino, _ => { s with mntflags := { f with truncXino := false } }
  | .dirperm1, _ => { s with mntflags := { f with dirperm1 := true } }
  | .nodirperm1, _ => { s with mntflags := { f with dirperm1 := false } }
  | .shwh, _ => { s with mntflags := { f with shwh := true } }
  | .noshwh, _ => { s with mntflags := { f with shwh := false } }
  | .xino, _ => { s with mntflags := { f with xino := true } }
  | .noxino, _ => { s with mntflags := { f with xino := false } }
  | _, _ => s

/-- `verify_opts`: COO is reset on a mount for reading. -/
def verifyOptsCoo (rdonly : Bool) (s : Settings) : Settings :=
  if rdonly then { s with mntflags := { s.mntflags with coo := .none } } else s

/-- The loops of `au_opts_mount` and `au_opts_remount`, where they come to their end, and `verify_opts`. -/
def applyOpts (cfg : OptsConfig) (rdonly : Bool) (opts : List AuOpt) (s : Settings) : Settings :=
  verifyOptsCoo rdonly (opts.foldl (auOptSimple cfg) s)

/-! ## `aufs_show_options` -/

/-- `AuBool` -/
def auBool (v def_ : Bool) (str : List Char) : List (List Char) :=
  if v = def_ then [] else [if v then str else "no".toList ++ str]

/-- `au_optstr_udba` -/
def auOptstrUdba : Udba → List Char
  | .reval => "reval".toList
  | .inotify => "inotify".toList
  | .none => "none".toList

/-- `au_optstr_coo` -/
def auOptstrCoo : Coo → List Char
  | .none => "none".toList
  | .leaf => "leaf".toList
  | .all => "all".toList

/-- `au_optstr_wbr_copyup` -/
def auOptstrWbrCopyup : WbrCopyup → List Char
  | .tdp => "tdp".toList
  | .bup => "bup".toList
  | .bu => "bu".toList

/-- `au_show_wbr_create` -/
def auShowWbrCreate (cfg : OptsConfig) (s : Settings) : List Char :=
  let sec := Nat.toDigits 10 (s.mfsExpire / cfg.hz)
  let watermark := Nat.toDigits 10 s.mfsrrWatermark
  "create=".toList ++
    match s.wbrCreate with
    | .tdp => "tdp".toList
    | .rr => "rr".toList
    | .mfs => "mfs".toList
    | .pmfs => "pmfs".toList
    | .mfsv => "mfs:".toList ++ sec
    | .pmfsv => "pmfs:".toList ++ sec
    | .mfsrr => "mfsrr:".toList ++ watermark
    | .mfsrrv => "mfsrr:".toList ++ watermark ++ ':' :: sec

/-- The items of `aufs_show_options`, without `si=`, `xino=` and the branches. -/
def showItems (cfg : OptsConfig) (s : Settings) : List (List Char) :=
  let f := s.mntflags
  let d := mntflagsDef cfg
  let dirwh := toInt s.dirwh
  let rdcache := toInt (s.rdcache / cfg.hz : Nat)
  (if f.xino then [] else ["noxino".toList]) ++
  auBool f.truncXino d.truncXino "trunc_xino".toList ++
  auBool f.dirperm1 d.dirperm1 "dirperm1".toList ++
  auBool f.shwh d.shwh "shwh".toList ++
  auBool f.plink d.plink "plink".toList ++
  (if f.udba = d.udba then [] else ["udba=".toList ++ auOptstrUdba f.udba]) ++
  (if s.wbrCreate = .tdp then [] else [auShowWbrCreate cfg s]) ++
  (if s.wbrCopyup = .tdp then [] else ["cpup=".toList ++ auOptstrWbrCopyup s.wbrCopyup]) ++
  (if f.alwaysDiropq = d.alwaysDiropq then [] else ["diropq=".toList ++ [if f.alwaysDiropq then 'a' else 'w']]) ++
  auBool f.refrof d.refrof "refrof".toList ++
  auBool f.dlgt d.dlgt "dlgt".toList ++
  auBool f.warnPerm d.warnPerm "warn_perm".toList ++
  auBool f.verbose d.verbose "verbose".toList ++
  auBool f.sum d.sum "sum".toList ++
  (if dirwh = dirwhDef then [] else ["dirwh=".toList ++ showInt dirwh]) ++
  (if rdcache = rdcacheDef then [] else ["rdcache=".toList ++ showInt rdcache]) ++
  (if f.coo = d.coo then [] else ["coo=".toList ++ auOptstrCoo f.coo])

/-- `aufs_show_options`, in between the commas. -/
def showOptions (cfg : OptsConfig) (s : Settings) : List Char := [','].intercalate (showItems cfg s)

/-! ## Mounts and remounts -/

/-- The settings, and MS_RDONLY of the super block. -/
structure OptsMounted where
  settings : Settings
  rdonly : Bool
  deriving DecidableEq, Repr

/-- A call of mount or remount: the flag and the union it is for, what the lookups answer, the page with its entries,
    and the string. -/
structure OptsCall where
  sb : OptsSb
  env : OptsEnv
  memory : Bool
  maxOpt : Nat
  page : Nat → AuOpt
  str : List Char

def OptsCall.parse (cfg : OptsConfig) (c : OptsCall) : ParseResult :=
  auOptsParse cfg c.env c.sb c.memory c.maxOpt c.page c.str

/-- The entries that the loops of a call see. -/
def OptsCall.opts (cfg : OptsConfig) (c : OptsCall) : List AuOpt := auOpts (c.parse cfg).page.opt c.maxOpt 0

/-- A call that is accepted, and one that is refused after so many of its options. -/
inductive OptsEvent where
  | accepted (call : OptsCall)
  | refused (call : OptsCall) (done : Nat)

/-- What a call leaves: the settings are kept where it is refused, and the flag is not. -/
def OptsStep (cfg : OptsConfig) (s : OptsMounted) (e : OptsEvent) (s' : OptsMounted) : Prop :=
  match e with
  | .accepted c =>
    0 < c.maxOpt ∧ (c.parse cfg).err = 0 ∧
      s' = ⟨applyOpts cfg c.sb.rdonly (c.opts cfg) s.settings, c.sb.rdonly⟩
  | .refused c done =>
    0 < c.maxOpt ∧ (c.parse cfg).err = 0 ∧
      s' = ⟨applyOpts cfg c.sb.rdonly ((c.opts cfg).take done) s.settings, s.rdonly⟩

end KernelPatches.Aufs
