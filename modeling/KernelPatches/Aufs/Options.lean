/-
  aufs: the mount options.

  `au_opts_parse` fills one page with the options of a string.  The page is an array of `max_opt` entries, and
  an entry of the type `Opt_tail` is written behind the last one each time, so that the loops over the options
  know where to stop.  Two loops append: the one over the options, and the one over the branches of a `br:`.

  * `options`, `brperms`, …    — the tables, and the values they are searched for;
  * `optAdd`, `parseOne`       — one branch, and one option, with what it looks up;
  * `auOptsParse`              — the loops, with their tests for the end of the page;
  * `auOptsFree`               — the paths, dentries and files that are put.
-/
import KernelPatches.Lib.Parser
import KernelPatches.Aufs.Remove

namespace KernelPatches.Aufs

open KernelPatches.Lib

def E2BIG : Int := 7

/-! ## The tables -/

/-- What the module is configured for.  HZ is an `int`. -/
structure OptsConfig where
  arch : Arch
  br : BrConfig
  hz : Nat
  debug : Bool
  dlgt : Bool
  shwh : Bool
  hinotify : Bool
  compat : Bool
  hz_pos : 0 < hz
  hz_lt : hz < 2 ^ 31

/-- Opt_* -/
inductive Opt where
  | br | add | del | mod | append | prepend | imod
  | dirwh | rdcache | rendir | xino | noxino
  | truncXino | truncXinoV | notruncXino | truncXinoPath | itruncXino | truncXib | notruncXib
  | dirperm1 | nodirperm1 | shwh | noshwh
  | plink | noplink | listPlink | cleanPlink
  | udba | diropqA | diropqW | warnPerm | nowarnPerm
  | wbrCopyup | wbrCreate | coo | dlgt | nodlgt | refrof | norefrof | verbose | noverbose
  | sum | nosum | wsum
  | tail | ignore | ignoreSilent | err
  deriving DecidableEq, Repr

def lit (text : String) : Piece := .lit text.toList

/-- `options` -/
def options (cfg : OptsConfig) : List (Opt × List Piece) :=
  [(.br, [lit "br=", .str]), (.br, [lit "br:", .str]),
    (.add, [lit "add=", .int, lit ":", .str]), (.add, [lit "add:", .int, lit ":", .str]),
    (.add, [lit "ins=", .int, lit ":", .str]), (.add, [lit "ins:", .int, lit ":", .str]),
    (.append, [lit "append=", .str]), (.append, [lit "append:", .str]),
    (.prepend, [lit "prepend=", .str]), (.prepend, [lit "prepend:", .str]),
    (.del, [lit "del=", .str]), (.del, [lit "del:", .str]),
    (.mod, [lit "mod=", .str]), (.mod, [lit "mod:", .str]),
    (.imod, [lit "imod:", .int, lit ":", .str]),
    (.dirwh, [lit "dirwh=", .int]), (.dirwh, [lit "dirwh:", .int]),
    (.xino, [lit "xino=", .str]), (.xino, [lit "xino:", .str]), (.noxino, [lit "noxino"]),
    (.truncXino, [lit "trunc_xino"]), (.truncXinoV, [lit "trunc_xino_v=", .int, lit ":", .int]),
    (.notruncXino, [lit "notrunc_xino"]),
    (.truncXinoPath, [lit "trunc_xino=", .str]), (.truncXinoPath, [lit "trunc_xino:", .str]),
    (.itruncXino, [lit "itrunc_xino=", .int]), (.itruncXino, [lit "itrunc_xino:", .int]),
    (.truncXib, [lit "trunc_xib"]), (.notruncXib, [lit "notrunc_xib"]),
    (.plink, [lit "plink"]), (.noplink, [lit "noplink"])] ++
  (if cfg.debug then [(.listPlink, [lit "list_plink"])] else []) ++
  [(.cleanPlink, [lit "clean_plink"]),
    (.udba, [lit "udba=", .str]),
    (.diropqA, [lit "diropq=always"]), (.diropqA, [lit "diropq=a"]),
    (.diropqW, [lit "diropq=whiteouted"]), (.diropqW, [lit "diropq=w"]),
    (.warnPerm, [lit "warn_perm"]), (.nowarnPerm, [lit "nowarn_perm"])] ++
  (if cfg.dlgt then [(.dlgt, [lit "dlgt"]), (.dirperm1, [lit "dirperm1"])] else []) ++
  [(.nodlgt, [lit "nodlgt"]), (.nodirperm1, [lit "nodirperm1"])] ++
  (if cfg.shwh then [(.shwh, [lit "shwh"])] else []) ++
  [(.noshwh, [lit "noshwh"]),
    (.rendir, [lit "rendir=", .int]), (.rendir, [lit "rendir:", .int]),
    (.refrof, [lit "refrof"]), (.norefrof, [lit "norefrof"]),
    (.verbose, [lit "verbose"]), (.verbose, [lit "v"]),
    (.noverbose, [lit "noverbose"]), (.noverbose, [lit "quiet"]), (.noverbose, [lit "q"]),
    (.noverbose, [lit "silent"]),
    (.sum, [lit "sum"]), (.nosum, [lit "nosum"]), (.wsum, [lit "wsum"]),
    (.rdcache, [lit "rdcache=", .int]), (.rdcache, [lit "rdcache:", .int]),
    (.coo, [lit "coo=", .str]),
    (.wbrCreate, [lit "create=", .str]), (.wbrCreate, [lit "create:", .str]),
    (.wbrCreate, [lit "create_policy=", .str]), (.wbrCreate, [lit "create_policy:", .str]),
    (.wbrCopyup, [lit "cpup=", .str]), (.wbrCopyup, [lit "cpup:", .str]),
    (.wbrCopyup, [lit "copyup=", .str]), (.wbrCopyup, [lit "copyup:", .str]),
    (.wbrCopyup, [lit "copyup_policy=", .str]), (.wbrCopyup, [lit "copyup_policy:", .str]),
    (.ignoreSilent, [lit "si=", .str]),
    (.br, [lit "dirs=", .str]),
    (.ignore, [lit "debug=", .int]), (.ignore, [lit "delete=whiteout"]), (.ignore, [lit "delete=all"]),
    (.ignore, [lit "imap=", .str])]

/-- `brperms`, of which the last entry is AuBrPerm_RO. -/
def brperms : List (BrPerm × List Piece) :=
  [(.rr, [lit "rr"]), (.ro, [lit "ro"]), (.rw, [lit "rw"]), (.rrWh, [lit "rr+wh"]), (.roWh, [lit "ro+wh"]),
    (.rwNoLinkWh, [lit "rw+nolwh"]), (.roWh, [lit "nfsro"])]

/-- `br_perm_val` -/
def brPermVal (perm : List Char) : BrPerm := (matchToken brperms .ro perm).1

/-- AuOpt_UDBA_* -/
inductive Udba where
  | none
  | reval
  | inotify
  deriving DecidableEq, Repr

/-- `udbalevel` -/
def udbalevel (cfg : OptsConfig) : List (Option Udba × List Piece) :=
  [(some .reval, [lit "reval"])] ++ (if cfg.hinotify then [(some .inotify, [lit "inotify"])] else []) ++
    [(some .none, [lit "none"])]

/-- `udba_val` -/
def udbaVal (cfg : OptsConfig) (str : List Char) : Option Udba := (matchToken (udbalevel cfg) none str).1

/-- AuOpt_COO_* -/
inductive Coo where
  | none
  | leaf
  | all
  deriving DecidableEq, Repr

/-- `coolevel` -/
def coolevel : List (Option Coo × List Piece) :=
  [(some .none, [lit "none"]), (some .leaf, [lit "leaf"]), (some .all, [lit "all"])]

/-- `coo_val` -/
def cooVal (str : List Char) : Option Coo := (matchToken coolevel none str).1

/-- `au_wbr_create_policy` -/
def wbrCreatePolicy : List (Option WbrCreate × List Piece) :=
  [(some .tdp, [lit "tdp"]), (some .tdp, [lit "top-down-parent"]),
    (some .rr, [lit "rr"]), (some .rr, [lit "round-robin"]),
    (some .mfs, [lit "mfs"]), (some .mfs, [lit "most-free-space"]),
    (some .mfsv, [lit "mfs:", .int]), (some .mfsv, [lit "most-free-space:", .int]),
    (some .mfsrr, [lit "mfsrr:", .int]), (some .mfsrrv, [lit "mfsrr:", .int, lit ":", .int]),
    (some .pmfs, [lit "pmfs"]), (some .pmfsv, [lit "pmfs:", .int])]

/-- `au_wbr_copyup_policy` -/
def wbrCopyupPolicy : List (Option WbrCopyup × List Piece) :=
  [(some .tdp, [lit "tdp"]), (some .tdp, [lit "top-down-parent"]),
    (some .bup, [lit "bup"]), (some .bup, [lit "bottom-up-parent"]),
    (some .bu, [lit "bu"]), (some .bu, [lit "bottom-up"])]

/-- `au_wbr_copyup_val` -/
def wbrCopyupVal (str : List Char) : Option WbrCopyup := (matchToken wbrCopyupPolicy none str).1

/-! ## Numbers -/

/-- A value in an `int`. -/
def toInt (z : Int) : Int := z.bmod (2 ^ 32)

/-- `match_int`: the value of `simple_strtol`, a `long`, in an `int`. -/
def matchInt (A : Arch) (arg : List Char) : Option Int :=
  let r := strtol arg
  if r.2.length = arg.length then none else some (toInt (r.1.bmod (2 ^ A.bitsPerLong)))

/-- A value in an `aufs_bindex_t`. -/
def BrConfig.narrow (cfg : BrConfig) (z : Int) : Int := z.bmod (2 ^ cfg.bits)

/-- `au_match_ull` -/
def auMatchUll (arg : List Char) : Option Nat :=
  if 32 < arg.length + 1 then none
  else
    let r := strtoul arg
    if r.2.length = arg.length then none else some (r.1 % 2 ^ 64)

/-- `struct au_opt_wbr_create`: the fields that are written. -/
structure OptWbrCreate where
  wbrCreate : WbrCreate
  mfsSecond : Option Int
  mfsrrWatermark : Option Nat
  deriving DecidableEq, Repr

/-- AUFS_MFS_SECOND_DEF -/
def mfsSecondDef : Int := 30

/-- `au_wbr_mfs_sec` -/
def wbrMfsSec (A : Arch) (arg : List Char) : Option Int := (matchInt A arg).filter fun n => 0 ≤ n

/-- `au_wbr_create_val` -/
def wbrCreateVal (A : Arch) (str : List Char) : Option OptWbrCreate :=
  match matchToken wbrCreatePolicy none str with
  | (none, _) => none
  | (some .mfsrrv, args) =>
    (auMatchUll (args.getD 0 [])).bind fun wmark =>
      (wbrMfsSec A (args.getD 1 [])).map fun sec => ⟨.mfsrrv, some sec, some wmark⟩
  | (some .mfsrr, args) => (auMatchUll (args.getD 0 [])).map fun wmark => ⟨.mfsrr, some mfsSecondDef, some wmark⟩
  | (some .mfs, _) => some ⟨.mfs, some mfsSecondDef, none⟩
  | (some .pmfs, _) => some ⟨.pmfs, some mfsSecondDef, none⟩
  | (some .mfsv, args) => (wbrMfsSec A (args.getD 0 [])).map fun sec => ⟨.mfsv, some sec, none⟩
  | (some .pmfsv, args) => (wbrMfsSec A (args.getD 0 [])).map fun sec => ⟨.pmfsv, some sec, none⟩
  | (some wbrCreate, _) => some ⟨wbrCreate, none, none⟩

/-! ## Entries -/

/-- What is kept for an option.  A path or a dentry that was looked up, and a file, is known by the number of the
    call it comes from.  The permission of a branch is `none` as long as it is AuBrPerm_Last. -/
inductive OptArg where
  | unset
  | add (bindex : Int) (perm : Option BrPerm) (path : List Char) (nd : Nat) (dentry : HRoot)
  | del (path : List Char) (hRoot : Nat) (dentry : HRoot)
  | mod (path : List Char) (perm : BrPerm) (hRoot : Nat) (dentry : HRoot)
  | xino (path : List Char) (file : Nat)
  | itrunc (bindex : Int)
  | int (n : Int)
  | udba (level : Udba)
  | create (create : OptWbrCreate)
  | copyup (policy : WbrCopyup)
  | coo (level : Coo)
  deriving DecidableEq, Repr

/-- `struct au_opt` -/
structure AuOpt where
  type : Opt
  arg : OptArg
  deriving DecidableEq, Repr

/-- What the lookups and the creations of files answer, by the number of the call, and `au_test_def_rr`.  The
    answer for a file is whether it is on the union itself. -/
structure OptsEnv where
  lookup : Nat → List Char → Except Int HRoot
  xinoCreate : Nat → List Char → Except Int Bool
  defRr : HSuper → Bool
  lookup_neg : ∀ calls path err, lookup calls path = .error err → err < 0
  xinoCreate_neg : ∀ calls path err, xinoCreate calls path = .error err → err < 0

/-- `opts->sb_flags & MS_RDONLY`, and the branches there are, which `trunc_xino` looks at. -/
structure OptsSb where
  rdonly : Bool
  union : UnionSb

/-- The calls so far, and the variable `bindex`. -/
structure OptsVars where
  calls : Nat
  bindex : Int
  deriving DecidableEq, Repr

/-- What becomes of an option. -/
inductive Parsed where
  | failed (err : Int)
  | skipped
  | entry (opt : AuOpt)

section

variable (cfg : OptsConfig) (env : OptsEnv) (sb : OptsSb)

/-- `opt_add`: the permission that is written, and one by default if there is no `=`. -/
def optAdd (calls : Nat) (optStr : List Char) (bindex : Int) : Except Int AuOpt :=
  let path := optStr.takeWhile fun c => c ≠ '='
  let p := optStr.dropWhile fun c => c ≠ '='
  match env.lookup calls path with
  | .error _ => .error (-EINVAL)
  | .ok dentry =>
    let perm :=
      match p with
      | [] =>
        if cfg.compat then some .rw
        else if bindex = 0 ∧ !sb.rdonly then some .rw
        else if env.defRr dentry.dSb then some .rr
        else some .ro
      | [_] => none
      | _ :: perm => some (brPermVal perm)
    .ok ⟨.add, .add bindex perm path calls dentry⟩

/-- The `switch` of `au_opts_parse`, but for the branches of `br:`. -/
def parseOne (token : Opt) (args : List (List Char)) (v : OptsVars) : Parsed × OptsVars :=
  let arg := args.getD 0 []
  let called := { v with calls := v.calls + 1 }
  match token with
  | .add =>
    match matchInt cfg.arch arg with
    | none => (.failed (-EINVAL), v)
    | some n =>
      let bindex := cfg.br.narrow n
      match optAdd cfg env sb v.calls (args.getD 1 []) bindex with
      | .error err => (.failed err, { called with bindex })
      | .ok opt => (.entry opt, { called with bindex })
  | .append =>
    match optAdd cfg env sb v.calls arg 1 with
    | .error err => (.failed err, called)
    | .ok opt => (.entry { opt with type := .append }, called)
  | .prepend =>
    match optAdd cfg env sb v.calls arg 0 with
    | .error err => (.failed err, called)
    | .ok opt => (.entry { opt with type := .prepend }, called)
  | .del =>
    match env.lookup v.calls arg with
    | .error err => (.failed err, called)
    | .ok dentry => (.entry ⟨.del, .del arg v.calls dentry⟩, called)
  | .mod =>
    match arg.dropWhile fun c => c ≠ '=' with
    | [] => (.failed (-EINVAL), v)
    | _ :: perm =>
      let path := arg.takeWhile fun c => c ≠ '='
      match env.lookup v.calls path with
      | .error err => (.failed err, called)
      | .ok dentry => (.entry ⟨.mod, .mod path (brPermVal perm) v.calls dentry⟩, called)
  | .xino =>
    match env.xinoCreate v.calls arg with
    | .error err => (.failed err, called)
    | .ok onAufs => if onAufs then (.failed (-EINVAL), called) else (.entry ⟨.xino, .xino arg v.calls⟩, called)
  | .truncXinoPath =>
    match env.lookup v.calls arg with
    | .error err => (.failed err, called)
    | .ok dentry =>
      let found := findDbindexFrom dentry (sb.union.diHdentry.take (sb.union.siBend + 1).toNat) 0
      if found < 0 then (.failed (-EINVAL), { called with bindex := sb.union.siBend + 1 })
      else (.entry ⟨.truncXinoPath, .itrunc found⟩, { called with bindex := found })
  | .itruncXino =>
    match matchInt cfg.arch arg with
    | none => (.failed (-EINVAL), v)
    | some n =>
      if n < 0 ∨ sb.union.siBend < n then (.failed (-EINVAL), v)
      else (.entry ⟨.itruncXino, .itrunc (cfg.br.narrow n)⟩, v)
  | .dirwh =>
    match matchInt cfg.arch arg with
    | none => (.failed (-EINVAL), v)
    | some n => (.entry ⟨.dirwh, .int n⟩, v)
  | .rdcache =>
    match matchInt cfg.arch arg with
    | none => (.failed (-EINVAL), v)
    | some n => (.entry ⟨.rdcache, .int n⟩, v)
  | .shwh => if sb.rdonly then (.entry ⟨.shwh, .unset⟩, v) else (.failed (-EINVAL), v)
  | .udba =>
    match udbaVal cfg arg with
    | none => (.failed (-EINVAL), v)
    | some level => (.entry ⟨.udba, .udba level⟩, v)
  | .wbrCreate =>
    match wbrCreateVal cfg.arch arg with
    | none => (.failed (-EINVAL), v)
    | some create => (.entry ⟨.wbrCreate, .create create⟩, v)
  | .wbrCopyup =>
    match wbrCopyupVal arg with
    | none => (.failed (-EINVAL), v)
    | some policy => (.entry ⟨.wbrCopyup, .copyup policy⟩, v)
  | .coo =>
    match cooVal arg with
    | none => (.failed (-EINVAL), v)
    | some level => if level = .none ∨ !sb.rdonly then (.entry ⟨.coo, .coo level⟩, v) else (.failed (-EINVAL), v)
  | .ignore => (.skipped, v)
  | .ignoreSilent => (.skipped, v)
  -- tokens without a case of their own
  | .err => (.failed (-EINVAL), v)
  | .imod => (.failed (-EINVAL), v)
  | .truncXinoV => (.failed (-EINVAL), v)
  | .rendir => (.failed (-EINVAL), v)
  | .tail => (.failed (-EINVAL), v)
  | .br => (.skipped, v)
  | token => (.entry ⟨token, .unset⟩, v)

/-! ## The page -/

/-- The page, the entry that is written next, and the calls and `bindex`.  `held` are the paths, dentries and
    files that entries were filled with. -/
structure Page where
  opt : Nat → AuOpt
  next : Nat
  vars : OptsVars
  held : List Nat

/-- What an entry holds. -/
def AuOpt.holds (opt : AuOpt) : List Nat :=
  match opt.type, opt.arg with
  | .add, .add _ _ _ nd _ => [nd]
  | .append, .add _ _ _ nd _ => [nd]
  | .prepend, .add _ _ _ nd _ => [nd]
  | .del, .del _ hRoot _ => [hRoot]
  | .mod, .mod _ _ hRoot _ => [hRoot]
  | .xino, .xino _ file => [file]
  | _, _ => []

/-- `opt->type = Opt_tail` -/
def Page.setTail (p : Page) (i : Nat) : Page :=
  { p with opt := Function.update p.opt i { p.opt i with type := .tail } }

/-- An entry is filled. -/
def Page.put (p : Page) (opt : AuOpt) : Page :=
  { p with opt := Function.update p.opt p.next opt, held := p.held ++ opt.holds }

/-- The branches of a `br:`: the result, and `skipped`. -/
def brList (maxOpt : Nat) : List (List Char) → Page → Int × Bool × Page
  | [], p => (0, false, p)
  | optStr :: rest, p =>
    let vars := ⟨p.vars.calls + 1, cfg.br.succ p.vars.bindex⟩
    match optAdd cfg env sb p.vars.calls optStr p.vars.bindex with
    | .error err => (err, false, { p with vars })
    | .ok opt =>
      let p := { p.put opt with vars, next := p.next + 1 }
      -- opt > opt_tail
      if maxOpt ≤ p.next then (-E2BIG, false, p)
      else
        let r := brList maxOpt rest (p.setTail p.next)
        (r.1, true, r.2.2)

/-- The end of the loop body, for an option that is not skipped: whether there is room for the next one. -/
def Page.advance (p : Page) (maxOpt : Nat) : Int × Page :=
  if maxOpt ≤ p.next + 1 then (-E2BIG, p.setTail p.next)
  else (0, { p.setTail (p.next + 1) with next := p.next + 1 })

/-- The loop over the options. -/
def parseItems (maxOpt : Nat) : List (List Char) → Page → Int × Page
  | [], p => (0, p)
  | optStr :: rest, p =>
    match matchToken (options cfg) .err optStr with
    | (.br, args) =>
      match brList cfg env sb maxOpt (strsep ':' (args.getD 0 [])) p with
      | (err, skipped, p) =>
        if err ≠ 0 then (err, p)
        else if skipped then parseItems maxOpt rest p
        else
          let r := p.advance maxOpt
          if r.1 ≠ 0 then r else parseItems maxOpt rest r.2
    | (token, args) =>
      match parseOne cfg env sb token args p.vars with
      | (.failed err, vars) => (err, { p with vars })
      | (.skipped, vars) => parseItems maxOpt rest { p with vars }
      | (.entry opt, vars) =>
        let r := ({ p with vars }.put opt).advance maxOpt
        if r.1 ≠ 0 then r else parseItems maxOpt rest r.2

section

variable {cfg : OptsConfig} {env : OptsEnv} {sb : OptsSb} {maxOpt : Nat} {optStr : List Char} {p : Page}

/-- The loop body for a `br:`. -/
theorem parseItems_br {args : List (List Char)} (hm : matchToken (options cfg) .err optStr = (.br, args))
    (rest : List (List Char)) :
    parseItems cfg env sb maxOpt (optStr :: rest) p =
      match brList cfg env sb maxOpt (strsep ':' (args.getD 0 [])) p with
      | (err, skipped, p) =>
        if err ≠ 0 then (err, p)
        else if skipped then parseItems cfg env sb maxOpt rest p
        else
          let r := p.advance maxOpt
          if r.1 ≠ 0 then r else parseItems cfg env sb maxOpt rest r.2 := by
  rw [parseItems, hm]

/-- The loop body for another option. -/
theorem parseItems_one {token : Opt} {args : List (List Char)}
    (hm : matchToken (options cfg) .err optStr = (token, args)) (hbr : token ≠ .br) (rest : List (List Char)) :
    parseItems cfg env sb maxOpt (optStr :: rest) p =
      match parseOne cfg env sb token args p.vars with
      | (.failed err, vars) => (err, { p with vars })
      | (.skipped, vars) => parseItems cfg env sb maxOpt rest { p with vars }
      | (.entry opt, vars) =>
        let r := ({ p with vars }.put opt).advance maxOpt
        if r.1 ≠ 0 then r else parseItems cfg env sb maxOpt rest r.2 := by
  rw [parseItems, hm]
  split
  · rename_i heq
    cases heq
    exact absurd rfl hbr
  · rename_i heq
    cases heq
    rfl

end

/-- `au_opts_free`, from an entry on, which does not come to an end if there is no tail in the page. -/
def auOptsFree (opt : Nat → AuOpt) : Nat → Nat → Option (List Nat)
  | 0, _ => none
  | n + 1, i => if (opt i).type = .tail then some [] else (auOptsFree opt n (i + 1)).map fun ids => (opt i).holds ++ ids

/-- The entries that the loops over the options see. -/
def auOpts (opt : Nat → AuOpt) : Nat → Nat → List AuOpt
  | 0, _ => []
  | n + 1, i => if (opt i).type = .tail then [] else opt i :: auOpts opt n (i + 1)

/-- What `au_opts_parse` leaves: the result, the page, and what was put, if `au_opts_free` comes back. -/
structure ParseResult where
  err : Int
  page : Page
  freed : Option (List Nat)

/-- `au_opts_parse`: `memory` is whether there is some for the arguments. -/
def auOptsParse (memory : Bool) (maxOpt : Nat) (opt : Nat → AuOpt) (str : List Char) : ParseResult :=
  let p : Page := ⟨opt, 0, ⟨0, 0⟩, []⟩
  if !memory then ⟨negENOMEM, p, some []⟩
  else
    let r := parseItems cfg env sb maxOpt (strsep ',' str) (p.setTail 0)
    ⟨r.1, r.2, if r.1 ≠ 0 then auOptsFree r.2.opt maxOpt 0 else some []⟩

end

end KernelPatches.Aufs
