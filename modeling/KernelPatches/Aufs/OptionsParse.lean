/-
  aufs: what `au_opts_parse` leaves when it fails.

  The entries are put one after the other, and a tail behind them.  What they hold is put again by
  `au_opts_free`, which goes up to the first tail.  There are three ways to lose something: a branch of a `br:`
  fills the last entry, behind which there is no room for a tail; another option fills it, and its type is
  overwritten with the tail; and a `br::` writes nothing and moves on, so that a tail is left in the middle.

  * `entriesOf`                — the entries a string stands for, without a page;
  * `PageFilled`, `PageFull`           — the page has these entries, and the page is full;
  * `parseItems_spec`          — that this is what the loops leave;
  * `optsParse_iff`            — when there is a tail, and everything is put once.
-/
import KernelPatches.Aufs.Options

namespace KernelPatches.Aufs

open KernelPatches.Lib

section

variable (cfg : OptsConfig) (env : OptsEnv) (sb : OptsSb)

/-! ## Entries -/

/-- The branches of a `br:`, up to one that fails. -/
def brEntries : List (List Char) → OptsVars → List AuOpt × Int × OptsVars
  | [], v => ([], 0, v)
  | optStr :: rest, v =>
    let v' : OptsVars := ⟨v.calls + 1, cfg.br.succ v.bindex⟩
    match optAdd cfg env sb v.calls optStr v.bindex with
    | .error err => ([], err, v')
    | .ok opt =>
      let r := brEntries rest v'
      (opt :: r.1, r.2)

/-- The entry that is left behind by a `br:` without branches. -/
def hole : AuOpt := ⟨.tail, .unset⟩

/-- The entries of one option, and the result. -/
def itemEntries (optStr : List Char) (v : OptsVars) : List AuOpt × Int × OptsVars :=
  match matchToken (options cfg) .err optStr with
  | (.br, args) =>
    let branches := strsep ':' (args.getD 0 [])
    if branches.isEmpty then ([hole], 0, v) else brEntries cfg env sb branches v
  | (token, args) =>
    match parseOne cfg env sb token args v with
    | (.failed err, v) => ([], err, v)
    | (.skipped, v) => ([], 0, v)
    | (.entry opt, v) => ([opt], 0, v)

/-- **The entries a string stands for**, up to an option that fails, if the page has room for them. -/
def entriesOf : List (List Char) → OptsVars → List AuOpt × Int
  | [], _ => ([], 0)
  | optStr :: rest, v =>
    let r := itemEntries cfg env sb optStr v
    if r.2.1 ≠ 0 then (r.1, r.2.1)
    else
      let r' := entriesOf rest r.2.2
      (r.1 ++ r'.1, r'.2)

end

/-- Not a tail. -/
def AuOpt.isOpt (opt : AuOpt) : Bool := opt.type ≠ .tail

/-- **What is claimed of a result**: there is a tail in the page, and after an error everything that entries hold was
    put, and once. -/
structure ParseOk (maxOpt : Nat) (r : ParseResult) : Prop where
  tail : ∃ i < maxOpt, (r.page.opt i).type = .tail
  freed : r.err ≠ 0 → r.freed = some r.page.held
  once : r.page.held.Nodup

/-- Nothing is held behind a hole, nor by an entry that is the last one of the page. -/
def FreesAll (maxOpt : Nat) (entries : List AuOpt) : Prop :=
  (∀ e ∈ entries.dropWhile AuOpt.isOpt, e.holds = []) ∧ ∀ e, entries[maxOpt - 1]? = some e → e.holds = []

/-- **The condition**: there is memory, or a tail in the page by chance.  If an option fails, or there are as many
    entries as the page has, then nothing is held behind a hole, nor by the last entry of the page. -/
def ParseFrees (cfg : OptsConfig) (env : OptsEnv) (sb : OptsSb) (memory : Bool) (maxOpt : Nat)
    (opt : Nat → AuOpt) (str : List Char) : Prop :=
  if memory then
    (entriesOf cfg env sb (strsep ',' str) ⟨0, 0⟩).2 ≠ 0 ∨
      maxOpt ≤ (entriesOf cfg env sb (strsep ',' str) ⟨0, 0⟩).1.length →
    FreesAll maxOpt ((entriesOf cfg env sb (strsep ',' str) ⟨0, 0⟩).1.take maxOpt)
  else ∃ i < maxOpt, (opt i).type = .tail

section

variable {cfg : OptsConfig} {env : OptsEnv} {sb : OptsSb} {maxOpt : Nat} {p : Page} {es : List AuOpt}

theorem optAdd_eq {calls : Nat} {optStr : List Char} {bindex : Int} {opt : AuOpt}
    (h : optAdd cfg env sb calls optStr bindex = .ok opt) :
    ∃ perm path dentry, opt = ⟨.add, .add bindex perm path calls dentry⟩ := by
  unfold optAdd at h
  dsimp only at h
  split at h
  · cases h
  · cases h
    exact ⟨_, _, _, rfl⟩

theorem optAdd_holds {calls : Nat} {optStr : List Char} {bindex : Int} {opt : AuOpt}
    (h : optAdd cfg env sb calls optStr bindex = .ok opt) : opt.holds = [calls] ∧ opt.isOpt = true := by
  obtain ⟨perm, path, dentry, rfl⟩ := optAdd_eq h
  exact ⟨rfl, rfl⟩

/-- What an entry holds, where there were so many calls before it, and so many with it. -/
def HoldsCall (opt : AuOpt) (calls calls' : Nat) : Prop :=
  (opt.holds = [] ∧ calls ≤ calls' ∨ opt.holds = [calls] ∧ calls' = calls + 1) ∧ opt.isOpt = true

/-- **One option** that gives an entry: it holds what was called for last, or nothing. -/
theorem parseOne_entry {token : Opt} {args : List (List Char)} {v v' : OptsVars} {opt : AuOpt}
    (h : parseOne cfg env sb token args v = (.entry opt, v')) : HoldsCall opt v.calls v'.calls := by
  -- an entry that holds nothing, of an option that calls for nothing
  have hplain : ∀ {o : AuOpt}, o.holds = [] → o.isOpt = true → (Parsed.entry o, v) = (Parsed.entry opt, v') →
      HoldsCall opt v.calls v'.calls := by
    intro o hholds hopt heq
    cases heq
    exact ⟨Or.inl ⟨hholds, Nat.le_refl _⟩, hopt⟩
  unfold parseOne at h
  dsimp only at h
  cases token with
  | add =>
    dsimp only at h
    split at h
    · cases h
    split at h
    · cases h
    · rename_i hadd
      cases h
      exact ⟨Or.inr ⟨(optAdd_holds hadd).1, rfl⟩, (optAdd_holds hadd).2⟩
  | append =>
    dsimp only at h
    split at h
    · cases h
    · rename_i hadd
      obtain ⟨perm, path, dentry, rfl⟩ := optAdd_eq hadd
      cases h
      exact ⟨Or.inr ⟨rfl, rfl⟩, rfl⟩
  | prepend =>
    dsimp only at h
    split at h
    · cases h
    · rename_i hadd
      obtain ⟨perm, path, dentry, rfl⟩ := optAdd_eq hadd
      cases h
      exact ⟨Or.inr ⟨rfl, rfl⟩, rfl⟩
  | del =>
    dsimp only at h
    split at h
    · cases h
    · cases h
      exact ⟨Or.inr ⟨rfl, rfl⟩, rfl⟩
  | mod =>
    dsimp only at h
    split at h
    · cases h
    split at h
    · cases h
    · cases h
      exact ⟨Or.inr ⟨rfl, rfl⟩, rfl⟩
  | xino =>
    dsimp only at h
    split at h
    · cases h
    split at h
    · cases h
    · cases h
      exact ⟨Or.inr ⟨rfl, rfl⟩, rfl⟩
  | truncXinoPath =>
    dsimp only at h
    split at h
    · cases h
    split at h
    · cases h
    · cases h
      exact ⟨Or.inl ⟨rfl, Nat.le_succ _⟩, rfl⟩
  | itruncXino =>
    dsimp only at h
    split at h
    · cases h
    split at h
    · cases h
    · exact hplain rfl rfl h
  | dirwh =>
    dsimp only at h
    split at h
    · cases h
    · exact hplain rfl rfl h
  | rdcache =>
    dsimp only at h
    split at h
    · cases h
    · exact hplain rfl rfl h
  | shwh =>
    dsimp only at h
    split at h
    · exact hplain rfl rfl h
    · cases h
  | udba =>
    dsimp only at h
    split at h
    · cases h
    · exact hplain rfl rfl h
  | wbrCreate =>
    dsimp only at h
    split at h
    · cases h
    · exact hplain rfl rfl h
  | wbrCopyup =>
    dsimp only at h
    split at h
    · cases h
    · exact hplain rfl rfl h
  | coo =>
    dsimp only at h
    split at h
    · cases h
    split at h
    · exact hplain rfl rfl h
    · cases h
  | br => cases h
  | imod => cases h
  | rendir => cases h
  | truncXinoV => cases h
  | tail => cases h
  | ignore => cases h
  | ignoreSilent => cases h
  | err => cases h
  | _ => exact hplain rfl rfl h

/-- The type of an entry is its token. -/
theorem parseOne_type {token : Opt} {args : List (List Char)} {v v' : OptsVars} {opt : AuOpt}
    (h : parseOne cfg env sb token args v = (.entry opt, v')) : opt.type = token := by
  unfold parseOne at h
  cases token with
  | add =>
    dsimp only at h
    split at h
    · cases h
    split at h
    · cases h
    · rename_i hadd
      obtain ⟨perm, path, dentry, rfl⟩ := optAdd_eq hadd
      cases h
      rfl
  | _ =>
    dsimp only at h
    (repeat' split at h) <;> cases h <;> rfl

/-- **An option that fails** does so with an error. -/
theorem parseOne_failed {token : Opt} {args : List (List Char)} {v v' : OptsVars} {err : Int}
    (h : parseOne cfg env sb token args v = (.failed err, v')) : err < 0 := by
  have heinval : -EINVAL < 0 := by decide
  have hadd : ∀ {calls : Nat} {optStr : List Char} {bindex e : Int},
      optAdd cfg env sb calls optStr bindex = .error e → e < 0 := by
    intro calls optStr bindex e he
    unfold optAdd at he
    dsimp only at he
    split at he <;> cases he
    exact heinval
  unfold parseOne at h
  cases token <;> dsimp only at h <;> (repeat' split at h) <;> cases h <;>
    first
    | exact heinval
    | exact hadd (by assumption)
    | exact env.lookup_neg _ _ _ (by assumption)
    | exact env.xinoCreate_neg _ _ _ (by assumption)

theorem parseOne_calls (token : Opt) (args : List (List Char)) (v : OptsVars) :
    v.calls ≤ (parseOne cfg env sb token args v).2.calls := by
  unfold parseOne
  cases token <;> dsimp only <;> (repeat' split) <;> first | exact Nat.le_refl _ | exact Nat.le_succ _

/-! ## The page -/

theorem holds_tail {opt : AuOpt} (h : opt.type = .tail) : opt.holds = [] := by
  unfold AuOpt.holds
  rw [h]

/-- The page has an entry.  Nothing but its type is known of a tail. -/
def Has (p : Page) (i : Nat) (e : AuOpt) : Prop := (p.opt i).type = e.type ∧ (e.isOpt = true → p.opt i = e)

theorem isOpt_eq_false {opt : AuOpt} : opt.isOpt = false ↔ opt.type = .tail := by
  unfold AuOpt.isOpt
  rw [decide_eq_false_iff_not, ne_eq, not_not]

theorem Has.holds {i : Nat} {e : AuOpt} (h : Has p i e) : (p.opt i).holds = e.holds := by
  cases hopt : e.isOpt with
  | true => rw [h.2 hopt]
  | false =>
    have htail := isOpt_eq_false.mp hopt
    rw [holds_tail htail, holds_tail (h.1.trans htail)]

/-- The entries were written from the start of the page, and what they hold is held once and was called for. -/
structure Wrote (p : Page) (es : List AuOpt) : Prop where
  entries : ∀ k e, es[k]? = some e → Has p k e
  held : p.held = es.flatMap AuOpt.holds
  fresh : ∀ id ∈ p.held, id < p.vars.calls
  nodup : p.held.Nodup

/-- **The page has the entries**, and a tail behind them. -/
structure PageFilled (maxOpt : Nat) (p : Page) (es : List AuOpt) : Prop extends Wrote p es where
  next : p.next = es.length
  room : es.length < maxOpt
  tail : (p.opt p.next).type = .tail

/-- **The page is full.**  The last entry is one that holds something, or was overwritten with a tail. -/
structure PageFull (maxOpt : Nat) (p : Page) (es : List AuOpt) : Prop where
  length : es.length = maxOpt
  entries : ∀ k e, k + 1 < maxOpt → es[k]? = some e → Has p k e
  last : (p.opt (maxOpt - 1)).type = .tail ∨
    ∀ e, es[maxOpt - 1]? = some e → Has p (maxOpt - 1) e ∧ e.holds ≠ [] ∧ e.isOpt = true
  held : p.held = es.flatMap AuOpt.holds
  nodup : p.held.Nodup

theorem Wrote.setVars {v : OptsVars} (h : Wrote p es) (hv : p.vars.calls ≤ v.calls) :
    Wrote { p with vars := v } es :=
  ⟨h.entries, h.held, fun id hid => Nat.lt_of_lt_of_le (h.fresh id hid) hv, h.nodup⟩

theorem Wrote.setNext {n : Nat} (h : Wrote p es) : Wrote { p with next := n } es :=
  ⟨h.entries, h.held, h.fresh, h.nodup⟩

/-- A tail behind the entries. -/
theorem Wrote.setTail {i : Nat} (h : Wrote p es) (hi : es.length ≤ i) : Wrote (p.setTail i) es := by
  refine ⟨fun k e hk => ?_, h.held, h.fresh, h.nodup⟩
  have hlt : k < es.length := (List.getElem?_eq_some_iff.mp hk).1
  unfold Has Page.setTail
  dsimp only
  rw [Function.update_of_ne (by omega)]
  exact h.entries k e hk

theorem setTail_type (p : Page) (i : Nat) : ((p.setTail i).opt i).type = .tail := by
  unfold Page.setTail
  dsimp only
  rw [Function.update_self]

/-- An entry is written behind them. -/
theorem Wrote.put {opt : AuOpt} {v : OptsVars} (h : Wrote p es) (hnext : p.next = es.length)
    (hcall : HoldsCall opt p.vars.calls v.calls) : Wrote ({ p with vars := v }.put opt) (es ++ [opt]) := by
  refine ⟨fun k e hk => ?_, ?_, ?_, ?_⟩
  · unfold Has Page.put
    dsimp only
    by_cases hlt : k < es.length
    · rw [List.getElem?_append_left hlt] at hk
      rw [Function.update_of_ne (by omega)]
      exact h.entries k e hk
    · have hlen := (List.getElem?_eq_some_iff.mp hk).1
      rw [List.length_append, List.length_singleton] at hlen
      obtain rfl : k = es.length := by omega
      rw [List.getElem?_append_right (Nat.le_refl _), Nat.sub_self] at hk
      obtain rfl := Option.some.inj hk
      rw [hnext, Function.update_self]
      exact ⟨rfl, fun _ => rfl⟩
  · show p.held ++ opt.holds = _
    rw [h.held, List.flatMap_append, List.flatMap_singleton]
  · intro id hid
    show id < v.calls
    rcases List.mem_append.mp hid with hid | hid
    · have := h.fresh id hid
      rcases hcall.1 with ⟨-, hle⟩ | ⟨-, heq⟩
      · omega
      · omega
    · rcases hcall.1 with ⟨hnil, -⟩ | ⟨hone, heq⟩
      · rw [hnil] at hid
        exact absurd hid List.not_mem_nil
      · rw [hone, List.mem_singleton] at hid
        omega
  · show (p.held ++ opt.holds).Nodup
    rcases hcall.1 with ⟨hnil, -⟩ | ⟨hone, -⟩
    · rw [hnil, List.append_nil]
      exact h.nodup
    · rw [hone]
      refine List.nodup_append.mpr ⟨h.nodup, List.nodup_cons.mpr ⟨List.not_mem_nil, List.nodup_nil⟩, fun id hid id' hmem heq => ?_⟩
      rw [List.mem_singleton] at hmem
      have := h.fresh id hid
      omega

/-- **The end of the loop body**: the entry that was written is the last one, or there is room for a tail. -/
theorem advance_spec {opt : AuOpt} (h : Wrote p (es ++ [opt])) (hnext : p.next = es.length)
    (hroom : es.length < maxOpt) :
    (es.length + 1 < maxOpt ∧ ∃ p', p.advance maxOpt = (0, p') ∧ PageFilled maxOpt p' (es ++ [opt]) ∧
      p'.vars = p.vars) ∨
    (es.length + 1 = maxOpt ∧ ∃ p', p.advance maxOpt = (-E2BIG, p') ∧ PageFull maxOpt p' (es ++ [opt])) := by
  have hlen : (es ++ [opt]).length = es.length + 1 := List.length_append
  unfold Page.advance
  by_cases hfull : maxOpt ≤ p.next + 1
  · rw [if_pos hfull]
    refine Or.inr ⟨by omega, _, rfl, by omega, fun k e hk hget => ?_, Or.inl ?_, h.held, h.nodup⟩
    · unfold Has Page.setTail
      dsimp only
      rw [Function.update_of_ne (by omega)]
      exact h.entries k e hget
    · rw [show maxOpt - 1 = p.next by omega]
      exact setTail_type p p.next
  · rw [if_neg hfull]
    have htail := (h.setTail (i := p.next + 1) (by omega)).setNext (n := p.next + 1)
    refine Or.inl ⟨by omega, _, rfl, ⟨htail, ?_, by omega, ?_⟩, rfl⟩
    · show p.next + 1 = _
      omega
    · exact setTail_type p (p.next + 1)

/-- **The branches of a `br:`** -/
theorem brList_spec (ps : List (List Char)) (h : PageFilled maxOpt p es) :
    (es.length + (brEntries cfg env sb ps p.vars).1.length < maxOpt →
      ∃ skipped p', brList cfg env sb maxOpt ps p = ((brEntries cfg env sb ps p.vars).2.1, skipped, p') ∧
        PageFilled maxOpt p' (es ++ (brEntries cfg env sb ps p.vars).1) ∧
        p'.vars = (brEntries cfg env sb ps p.vars).2.2 ∧
        ((brEntries cfg env sb ps p.vars).2.1 = 0 → skipped = !ps.isEmpty)) ∧
    (maxOpt ≤ es.length + (brEntries cfg env sb ps p.vars).1.length →
      ∃ skipped p', brList cfg env sb maxOpt ps p = (-E2BIG, skipped, p') ∧
        PageFull maxOpt p' ((es ++ (brEntries cfg env sb ps p.vars).1).take maxOpt)) := by
  induction ps generalizing p es with
  | nil =>
    have hroom := h.room
    refine ⟨fun _ => ⟨false, p, rfl, ?_, rfl, fun _ => rfl⟩, fun hle => ?_⟩
    · rw [brEntries, List.append_nil]
      exact h
    · rw [brEntries, List.length_nil] at hle
      omega
  | cons optStr rest ih =>
    have hroom := h.room
    have hnext := h.next
    rw [brEntries, brList]
    dsimp only
    cases hadd : optAdd cfg env sb p.vars.calls optStr p.vars.bindex with
    | error err =>
      dsimp only
      have herr : err ≠ 0 := by
        unfold optAdd at hadd
        dsimp only at hadd
        split at hadd
        · cases hadd
          decide
        · cases hadd
      refine ⟨fun _ => ⟨false, _, rfl, ?_, rfl, fun h0 => absurd h0 herr⟩, fun hle => ?_⟩
      · rw [List.append_nil]
        exact ⟨h.toWrote.setVars (Nat.le_succ _), h.next, h.room, h.tail⟩
      · rw [List.length_nil] at hle
        omega
    | ok opt =>
      dsimp only
      obtain ⟨hholds, hopt⟩ := optAdd_holds hadd
      have hput := (h.toWrote.put (v := ⟨p.vars.calls + 1, cfg.br.succ p.vars.bindex⟩) hnext
        ⟨Or.inr ⟨hholds, rfl⟩, hopt⟩).setNext (n := p.next + 1)
      have hlen : (es ++ [opt]).length = es.length + 1 := List.length_append
      by_cases hfull : maxOpt ≤ p.next + 1
      · -- the last entry of the page
        rw [if_pos hfull]
        refine ⟨fun hlt => ?_, fun _ => ⟨false, _, rfl, ?_⟩⟩
        · rw [List.length_cons] at hlt
          omega
        · have htake : (es ++ opt :: (brEntries cfg env sb rest ⟨p.vars.calls + 1, cfg.br.succ p.vars.bindex⟩).1).take
              maxOpt = es ++ [opt] := by
            rw [List.append_cons]
            exact List.take_left' (by omega)
          rw [htake]
          refine ⟨by omega, fun k e _ hk => hput.entries k e hk, Or.inr fun e he => ?_, hput.held, hput.nodup⟩
          refine ⟨hput.entries _ e he, ?_⟩
          rw [show maxOpt - 1 = es.length by omega, List.getElem?_append_right (Nat.le_refl _),
            Nat.sub_self] at he
          obtain rfl := Option.some.inj he
          rw [hholds]
          exact ⟨List.cons_ne_nil _ _, hopt⟩
      · rw [if_neg hfull]
        -- the page with the branch and a tail behind it
        obtain ⟨q, hq⟩ : ∃ q : Page, q = ({ p.put opt with
            vars := ⟨p.vars.calls + 1, cfg.br.succ p.vars.bindex⟩, next := p.next + 1 } : Page).setTail
              (p.next + 1) := ⟨_, rfl⟩
        have hvars : q.vars = ⟨p.vars.calls + 1, cfg.br.succ p.vars.bindex⟩ := by rw [hq]; rfl
        have hfilled : PageFilled maxOpt q (es ++ [opt]) := by
          rw [hq]
          refine ⟨hput.setTail (by omega), ?_, by omega, setTail_type _ _⟩
          show p.next + 1 = _
          omega
        obtain ⟨hroomy, hover⟩ := ih hfilled
        rw [hvars] at hroomy hover
        have hrun : brList cfg env sb maxOpt rest (({ p.put opt with
            vars := ⟨p.vars.calls + 1, cfg.br.succ p.vars.bindex⟩, next := p.next + 1 } : Page).setTail
              (p.next + 1)) = brList cfg env sb maxOpt rest q := by rw [hq]
        rw [hrun]
        have hcons : ∀ l : List AuOpt, es ++ opt :: l = es ++ [opt] ++ l := fun l => List.append_cons es opt l
        refine ⟨fun hlt => ?_, fun hle => ?_⟩
        · rw [List.length_cons] at hlt
          obtain ⟨skipped, p', hrest, hfill, hvars', -⟩ := hroomy (by omega)
          refine ⟨true, p', ?_, ?_, hvars', fun _ => rfl⟩
          · rw [hrest]
          · rw [hcons]
            exact hfill
        · rw [List.length_cons] at hle
          obtain ⟨skipped, p', hrest, hful⟩ := hover (by omega)
          refine ⟨true, p', ?_, ?_⟩
          · rw [hrest]
          · rw [hcons]
            exact hful

/-- A `br:` without branches: what the tail says is kept for an entry. -/
theorem PageFilled.hole (h : PageFilled maxOpt p es) : Wrote p (es ++ [hole]) := by
  refine ⟨fun k e hk => ?_, ?_, h.fresh, h.nodup⟩
  · by_cases hlt : k < es.length
    · rw [List.getElem?_append_left hlt] at hk
      exact h.entries k e hk
    · have hlen := (List.getElem?_eq_some_iff.mp hk).1
      rw [List.length_append, List.length_singleton] at hlen
      obtain rfl : k = es.length := by omega
      rw [List.getElem?_append_right (Nat.le_refl _), Nat.sub_self] at hk
      obtain rfl := Option.some.inj hk
      rw [← h.next]
      exact ⟨h.tail, fun hopt => absurd hopt (by decide)⟩
  · rw [h.held, List.flatMap_append, List.flatMap_singleton]
    exact (List.append_nil _).symm

theorem take_append_single {opt : AuOpt} (h : es.length + 1 = maxOpt) :
    (es ++ [opt]).take maxOpt = es ++ [opt] := by
  apply List.take_of_length_le
  rw [List.length_append, List.length_singleton]
  omega

/-- What one option does to the page, and to the options behind it. -/
def ItemSpec (cfg : OptsConfig) (env : OptsEnv) (sb : OptsSb) (maxOpt : Nat) (p : Page) (es : List AuOpt)
    (optStr : List Char) (r : List AuOpt × Int × OptsVars) : Prop :=
  (es.length + r.1.length < maxOpt → ∃ p', PageFilled maxOpt p' (es ++ r.1) ∧ p'.vars = r.2.2 ∧
    ∀ rest, parseItems cfg env sb maxOpt (optStr :: rest) p =
      if r.2.1 ≠ 0 then (r.2.1, p') else parseItems cfg env sb maxOpt rest p') ∧
  (maxOpt ≤ es.length + r.1.length → ∃ p', PageFull maxOpt p' ((es ++ r.1).take maxOpt) ∧
    ∀ rest, parseItems cfg env sb maxOpt (optStr :: rest) p = (-E2BIG, p'))

/-- An entry was written, and the loop goes on, or finds that it was the last one. -/
theorem itemSpec_entry {q : Page} {opt : AuOpt} {optStr : List Char} (h : Wrote q (es ++ [opt]))
    (hnext : q.next = es.length) (hroom : es.length < maxOpt)
    (hrun : ∀ rest, parseItems cfg env sb maxOpt (optStr :: rest) p =
      if (q.advance maxOpt).1 ≠ 0 then q.advance maxOpt
      else parseItems cfg env sb maxOpt rest (q.advance maxOpt).2) :
    ItemSpec cfg env sb maxOpt p es optStr ([opt], 0, q.vars) := by
  rcases advance_spec h hnext hroom with ⟨hlt, p', hadv, hfill, hvars⟩ | ⟨heq, p', hadv, hful⟩
  · refine ⟨fun _ => ⟨p', hfill, hvars, fun rest => ?_⟩, fun hle => ?_⟩
    · rw [hrun, hadv, if_neg (fun h0 => h0 rfl)]
    · rw [List.length_singleton] at hle
      omega
  · refine ⟨fun hlt => ?_, fun _ => ⟨p', ?_, fun rest => ?_⟩⟩
    · rw [List.length_singleton] at hlt
      omega
    · rw [take_append_single heq]
      exact hful
    · rw [hrun, hadv]
      exact if_pos (show -E2BIG ≠ 0 by decide)

/-- An option that leaves the entries as they are. -/
theorem itemSpec_none {err : Int} {v : OptsVars} {optStr : List Char} (h : PageFilled maxOpt p es)
    (hv : p.vars.calls ≤ v.calls)
    (hrun : ∀ rest, parseItems cfg env sb maxOpt (optStr :: rest) p =
      if err ≠ 0 then (err, { p with vars := v }) else parseItems cfg env sb maxOpt rest { p with vars := v }) :
    ItemSpec cfg env sb maxOpt p es optStr ([], err, v) := by
  have hroom := h.room
  refine ⟨fun _ => ⟨{ p with vars := v }, ?_, rfl, hrun⟩, fun hle => ?_⟩
  · rw [List.append_nil]
    exact ⟨h.toWrote.setVars hv, h.next, h.room, h.tail⟩
  · rw [List.length_nil] at hle
    omega

/-- The entries of a `br:`. -/
theorem itemEntries_br {optStr : List Char} {args : List (List Char)} {v : OptsVars}
    (hm : matchToken (options cfg) .err optStr = (.br, args)) :
    itemEntries cfg env sb optStr v =
      if (strsep ':' (args.getD 0 [])).isEmpty then ([hole], 0, v)
      else brEntries cfg env sb (strsep ':' (args.getD 0 [])) v := by
  unfold itemEntries
  rw [hm]

/-- The entries of an option that is not a `br:`. -/
theorem itemEntries_one {optStr : List Char} {token : Opt} {args : List (List Char)} {v : OptsVars}
    (hm : matchToken (options cfg) .err optStr = (token, args)) (hbr : token ≠ .br) :
    itemEntries cfg env sb optStr v =
      match parseOne cfg env sb token args v with
      | (.failed err, v) => ([], err, v)
      | (.skipped, v) => ([], 0, v)
      | (.entry opt, v) => ([opt], 0, v) := by
  unfold itemEntries
  rw [hm]
  split
  · rename_i heq
    cases heq
    exact absurd rfl hbr
  · rename_i heq
    cases heq
    rfl

/-- **One option.** -/
theorem item_spec (optStr : List Char) (h : PageFilled maxOpt p es) :
    ItemSpec cfg env sb maxOpt p es optStr (itemEntries cfg env sb optStr p.vars) := by
  cases hm : matchToken (options cfg) .err optStr with
  | mk token args =>
    by_cases hbr : token = .br
    · obtain rfl := hbr
      have hrun := @parseItems_br cfg env sb maxOpt optStr p args hm
      rw [itemEntries_br hm]
      cases hbranches : strsep ':' (args.getD 0 []) with
      | nil =>
        refine itemSpec_entry h.hole h.next h.room fun rest => ?_
        rw [hrun, hbranches]
        rfl
      | cons branch branches =>
        obtain ⟨hroomy, hover⟩ := @brList_spec cfg env sb maxOpt p es (branch :: branches) h
        refine ⟨fun hlt => ?_, fun hle => ?_⟩
        · obtain ⟨skipped, p', hlist, hfill, hvars, hskip⟩ := hroomy hlt
          refine ⟨p', hfill, hvars, fun rest => ?_⟩
          rw [hrun, hbranches, hlist]
          dsimp only
          by_cases herr : (brEntries cfg env sb (branch :: branches) p.vars).2.1 = 0
          · rw [if_neg (fun hne => hne herr), hskip herr]
            exact (if_neg (fun hne => hne herr)).symm
          · rw [if_pos herr]
            exact (if_pos herr).symm
        · obtain ⟨skipped, p', hlist, hful⟩ := hover hle
          refine ⟨p', hful, fun rest => ?_⟩
          rw [hrun, hbranches, hlist]
          exact if_pos (show -E2BIG ≠ 0 by decide)
    · have hrun := @parseItems_one cfg env sb maxOpt optStr p token args hm hbr
      have hitem := @itemEntries_one cfg env sb optStr token args p.vars hm hbr
      have hcalls := @parseOne_calls cfg env sb token args p.vars
      cases hone : parseOne cfg env sb token args p.vars with
      | mk parsed v =>
        rw [hone] at hitem hcalls
        rw [hitem]
        cases parsed with
        | failed err =>
          refine itemSpec_none h hcalls fun rest => ?_
          rw [hrun, hone, if_pos (Int.ne_of_lt (parseOne_failed hone))]
        | skipped =>
          refine itemSpec_none h hcalls fun rest => ?_
          rw [hrun, hone, if_neg (fun h0 => h0 rfl)]
        | entry opt =>
          have hput := h.toWrote.put h.next (parseOne_entry hone)
          refine itemSpec_entry hput h.next h.room fun rest => ?_
          rw [hrun, hone]

/-- **The loop over the options.** -/
theorem parseItems_spec (items : List (List Char)) (h : PageFilled maxOpt p es) :
    (es.length + (entriesOf cfg env sb items p.vars).1.length < maxOpt →
      ∃ p', parseItems cfg env sb maxOpt items p = ((entriesOf cfg env sb items p.vars).2, p') ∧
        PageFilled maxOpt p' (es ++ (entriesOf cfg env sb items p.vars).1)) ∧
    (maxOpt ≤ es.length + (entriesOf cfg env sb items p.vars).1.length →
      ∃ p', parseItems cfg env sb maxOpt items p = (-E2BIG, p') ∧
        PageFull maxOpt p' ((es ++ (entriesOf cfg env sb items p.vars).1).take maxOpt)) := by
  induction items generalizing p es with
  | nil =>
    have hroom := h.room
    rw [entriesOf, parseItems]
    refine ⟨fun _ => ⟨p, rfl, ?_⟩, fun hle => ?_⟩
    · rw [List.append_nil]
      exact h
    · rw [List.length_nil] at hle
      omega
  | cons optStr rest ih =>
    obtain ⟨hroomy, hover⟩ := @item_spec cfg env sb maxOpt p es optStr h
    rw [entriesOf]
    dsimp only
    by_cases herr : (itemEntries cfg env sb optStr p.vars).2.1 = 0
    · rw [if_neg (fun hne => hne herr)]
      dsimp only
      rw [List.length_append]
      by_cases hlt : es.length + (itemEntries cfg env sb optStr p.vars).1.length < maxOpt
      · obtain ⟨p', hfill, hvars, hrun⟩ := hroomy hlt
        obtain ⟨ihroomy, ihover⟩ := ih hfill
        rw [hvars, List.length_append, List.append_assoc, Nat.add_assoc] at ihroomy ihover
        rw [hrun rest, if_neg (fun hne => hne herr)]
        exact ⟨ihroomy, ihover⟩
      · refine ⟨fun hlt' => absurd hlt' (by omega), fun _ => ?_⟩
        obtain ⟨p', hful, hrun⟩ := hover (by omega)
        refine ⟨p', hrun rest, ?_⟩
        rw [← List.append_assoc, List.take_append_of_le_length (by rw [List.length_append]; omega)]
        exact hful
    · rw [if_pos herr]
      dsimp only
      refine ⟨fun hlt => ?_, fun hle => ?_⟩
      · obtain ⟨p', hfill, -, hrun⟩ := hroomy hlt
        refine ⟨p', ?_, hfill⟩
        rw [hrun rest, if_pos herr]
      · obtain ⟨p', hful, hrun⟩ := hover hle
        exact ⟨p', hrun rest, hful⟩

/-! ## What is put -/

/-- `au_opts_free` goes over the entries up to the first that is a tail. -/
theorem auOptsFree_entries {i n : Nat} (hlen : es.length ≤ n) (hhas : ∀ k e, es[k]? = some e → Has p (i + k) e) :
    auOptsFree p.opt n i = if es.all AuOpt.isOpt then
      (auOptsFree p.opt (n - es.length) (i + es.length)).map fun ids => es.flatMap AuOpt.holds ++ ids
      else some ((es.takeWhile AuOpt.isOpt).flatMap AuOpt.holds) := by
  induction es generalizing i n with
  | nil =>
    show auOptsFree p.opt n i = (auOptsFree p.opt n i).map fun ids => [] ++ ids
    cases auOptsFree p.opt n i <;> rfl
  | cons e rest ih =>
    have htype := (hhas 0 e rfl).1
    have hholds := (hhas 0 e rfl).holds
    rw [List.length_cons] at hlen
    obtain ⟨m, rfl⟩ : ∃ m, n = m + 1 := ⟨n - 1, by omega⟩
    rw [Nat.add_zero] at htype hholds
    have hrest := ih (i := i + 1) (n := m) (by omega) fun k e' hk => by
      have := hhas (k + 1) e' hk
      rwa [show i + (k + 1) = i + 1 + k by omega] at this
    rw [auOptsFree, htype, hholds, hrest]
    by_cases htail : e.type = .tail
    · have hopt : e.isOpt = false := by
        unfold AuOpt.isOpt
        rw [htail]
        rfl
      rw [if_pos htail, List.all_cons, hopt, Bool.false_and, List.takeWhile_cons, hopt]
      rfl
    · have hopt : e.isOpt = true := by
        unfold AuOpt.isOpt
        exact decide_eq_true htail
      rw [if_neg htail, List.all_cons, hopt, Bool.true_and, List.takeWhile_cons, hopt, List.length_cons,
        show m + 1 - (rest.length + 1) = m - rest.length by omega,
        show i + (rest.length + 1) = i + 1 + rest.length by omega]
      cases rest.all AuOpt.isOpt with
      | false => rfl
      | true =>
        rw [if_pos rfl, if_pos rfl, List.flatMap_cons]
        cases auOptsFree p.opt (m - rest.length) (i + 1 + rest.length) with
        | none => rfl
        | some ids => exact congrArg some (List.append_assoc _ _ _).symm

/-- What is put, where there is a tail behind the entries. -/
theorem auOptsFree_tail (hlen : es.length < maxOpt) (hhas : ∀ k e, es[k]? = some e → Has p k e)
    (htail : (p.opt es.length).type = .tail) :
    auOptsFree p.opt maxOpt 0 = some ((es.takeWhile AuOpt.isOpt).flatMap AuOpt.holds) := by
  rw [auOptsFree_entries (Nat.le_of_lt hlen) fun k e hk => by rw [Nat.zero_add]; exact hhas k e hk]
  by_cases hall : es.all AuOpt.isOpt = true
  · obtain ⟨m, hm⟩ : ∃ m, maxOpt - es.length = m + 1 := ⟨maxOpt - es.length - 1, by omega⟩
    have hself : es.takeWhile AuOpt.isOpt = es := List.takeWhile_eq_self_iff.mpr (List.all_eq_true.mp hall)
    rw [if_pos hall, hm, Nat.zero_add, auOptsFree, if_pos htail, hself]
    exact congrArg some (List.append_nil _)
  · rw [if_neg hall]

/-- **What the loops over the options see**, where there is a tail behind the entries. -/
theorem auOpts_tail {i n : Nat} (hlen : es.length < n) (hhas : ∀ k e, es[k]? = some e → Has p (i + k) e)
    (htail : (p.opt (i + es.length)).type = .tail) : auOpts p.opt n i = es.takeWhile AuOpt.isOpt := by
  induction es generalizing i n with
  | nil =>
    obtain ⟨m, rfl⟩ : ∃ m, n = m + 1 := ⟨n - 1, by omega⟩
    exact if_pos htail
  | cons e rest ih =>
    obtain ⟨htype, heq⟩ := hhas 0 e rfl
    rw [List.length_cons] at hlen htail
    obtain ⟨m, rfl⟩ : ∃ m, n = m + 1 := ⟨n - 1, by omega⟩
    rw [Nat.add_zero] at htype heq
    rw [auOpts, htype, List.takeWhile_cons]
    cases hopt : e.isOpt with
    | false =>
      rw [if_pos (isOpt_eq_false.mp hopt)]
      rfl
    | true =>
      have hne : e.type ≠ .tail := fun h => by
        rw [isOpt_eq_false.mpr h] at hopt
        cases hopt
      rw [if_neg hne, heq hopt, if_pos rfl]
      refine congrArg _ (ih (by omega) (fun k e' hk => ?_) ?_)
      · have := hhas (k + 1) e' hk
        rwa [show i + (k + 1) = i + 1 + k by omega] at this
      · rwa [show i + 1 + rest.length = i + (rest.length + 1) by omega]

/-- Everything is put, if nothing is held from the first hole on. -/
theorem takeWhile_holds : (es.takeWhile AuOpt.isOpt).flatMap AuOpt.holds = es.flatMap AuOpt.holds ↔
    ∀ e ∈ es.dropWhile AuOpt.isOpt, e.holds = [] := by
  have hsplit : es.flatMap AuOpt.holds =
      (es.takeWhile AuOpt.isOpt).flatMap AuOpt.holds ++ (es.dropWhile AuOpt.isOpt).flatMap AuOpt.holds := by
    rw [← List.flatMap_append, List.takeWhile_append_dropWhile]
  rw [hsplit, List.self_eq_append_right, List.flatMap_eq_nil_iff]

/-- An option failed, before the page was full. -/
theorem PageFilled.frees (h : PageFilled maxOpt p es) :
    auOptsFree p.opt maxOpt 0 = some p.held ↔ FreesAll maxOpt es := by
  have hlast : ∀ e, es[maxOpt - 1]? = some e → e.holds = [] := by
    intro e he
    have hlt := (List.getElem?_eq_some_iff.mp he).1
    have hroom := h.room
    omega
  rw [auOptsFree_tail h.room h.entries (h.next ▸ h.tail), h.held, Option.some_inj, takeWhile_holds]
  exact ⟨fun hall => ⟨hall, hlast⟩, fun hall => hall.1⟩

/-- Nothing is held from the first hole on, with one more entry. -/
theorem hole_append {e : AuOpt} (he : e.holds = []) :
    (∀ x ∈ (es ++ [e]).dropWhile AuOpt.isOpt, x.holds = []) ↔ ∀ x ∈ es.dropWhile AuOpt.isOpt, x.holds = [] := by
  rw [List.dropWhile_append]
  cases hd : es.dropWhile AuOpt.isOpt with
  | nil =>
    refine ⟨fun _ x hx => absurd hx List.not_mem_nil, fun _ x hx => ?_⟩
    have hmem := (List.dropWhile_sublist _).mem hx
    rw [List.mem_singleton.mp hmem]
    exact he
  | cons y ys =>
    refine ⟨fun h x hx => h x (List.mem_append_left _ hx), fun h x hx => ?_⟩
    rcases List.mem_append.mp hx with hx | hx
    · exact h x hx
    · rw [List.mem_singleton.mp hx]
      exact he

/-- **The page is full.** -/
theorem PageFull.frees (hmax : 0 < maxOpt) (h : PageFull maxOpt p es) :
    ((∃ i < maxOpt, (p.opt i).type = .tail) ∧ auOptsFree p.opt maxOpt 0 = some p.held) ↔ FreesAll maxOpt es := by
  have hlen := h.length
  -- the last entry
  obtain ⟨e, he⟩ : ∃ e, es[maxOpt - 1]? = some e := ⟨_, List.getElem?_eq_getElem (by omega)⟩
  have hnil : (∀ e', es[maxOpt - 1]? = some e' → e'.holds = []) ↔ e.holds = [] := by
    rw [he]
    exact ⟨fun hall => hall e rfl, fun hnil e' he' => Option.some.inj he' ▸ hnil⟩
  have hsplit : es.take (maxOpt - 1) ++ [e] = es := by
    have htake : es.take (maxOpt - 1 + 1) = es.take (maxOpt - 1) ++ [e] := by
      rw [List.take_add_one, he]
      rfl
    rw [← htake]
    exact List.take_of_length_le (by omega)
  have hinit : (es.take (maxOpt - 1)).length = maxOpt - 1 := by
    rw [List.length_take]
    omega
  have hheld : p.held = (es.take (maxOpt - 1)).flatMap AuOpt.holds ++ e.holds := by
    rw [h.held, ← List.flatMap_singleton AuOpt.holds e, ← List.flatMap_append, hsplit]
  unfold FreesAll
  rw [hnil]
  rcases h.last with htail | hlast
  · -- it was overwritten with a tail
    have hfreed : auOptsFree p.opt maxOpt 0 =
        some (((es.take (maxOpt - 1)).takeWhile AuOpt.isOpt).flatMap AuOpt.holds) := by
      refine auOptsFree_tail (by omega) (fun k e' hk => ?_) (by rw [hinit]; exact htail)
      have hlt := (List.getElem?_eq_some_iff.mp hk).1
      rw [hinit] at hlt
      rw [List.getElem?_take, if_pos hlt] at hk
      exact h.entries k e' (by omega) hk
    have hle : ((es.take (maxOpt - 1)).takeWhile AuOpt.isOpt).flatMap AuOpt.holds ++
        ((es.take (maxOpt - 1)).dropWhile AuOpt.isOpt).flatMap AuOpt.holds =
        (es.take (maxOpt - 1)).flatMap AuOpt.holds := by
      rw [← List.flatMap_append, List.takeWhile_append_dropWhile]
    rw [hfreed, Option.some_inj]
    constructor
    · rintro ⟨-, heq⟩
      rw [hheld, ← hle, List.append_assoc, List.self_eq_append_right, List.append_eq_nil_iff] at heq
      refine ⟨?_, heq.2⟩
      rw [← hsplit, hole_append heq.2]
      exact List.flatMap_eq_nil_iff.mp heq.1
    · rintro ⟨hhole, hnil⟩
      refine ⟨⟨maxOpt - 1, by omega, htail⟩, ?_⟩
      rw [← hsplit, hole_append hnil] at hhole
      rw [hheld, hnil, List.append_nil, takeWhile_holds]
      exact hhole
  · -- it is a branch, and there is no room for a tail
    obtain ⟨hhas, hne, hopt⟩ := hlast e he
    refine ⟨?_, fun hall => absurd hall.2 hne⟩
    rintro ⟨-, hfreed⟩
    exfalso
    have hentries : ∀ k e', es[k]? = some e' → Has p (0 + k) e' := by
      intro k e' hk
      rw [Nat.zero_add]
      have hlt := (List.getElem?_eq_some_iff.mp hk).1
      by_cases hk' : k = maxOpt - 1
      · rw [hk', he] at hk
        obtain rfl := Option.some.inj hk
        rw [hk']
        exact hhas
      · exact h.entries k e' (by omega) hk
    rw [auOptsFree_entries (by omega) hentries, hlen, Nat.sub_self] at hfreed
    by_cases hall : es.all AuOpt.isOpt = true
    · rw [if_pos hall] at hfreed
      cases hfreed
    · rw [if_neg hall, Option.some_inj, h.held, takeWhile_holds] at hfreed
      -- there is a hole before the last entry
      have hdrop : (es.take (maxOpt - 1)).dropWhile AuOpt.isOpt ≠ [] := by
        intro hdrop
        rw [List.dropWhile_eq_nil_iff] at hdrop
        refine hall (List.all_eq_true.mpr fun x hx => ?_)
        rw [← hsplit] at hx
        rcases List.mem_append.mp hx with hx | hx
        · exact hdrop x hx
        · rw [List.mem_singleton.mp hx]
          exact hopt
      refine hne (hfreed e ?_)
      rw [← hsplit, List.dropWhile_append, if_neg (by rwa [List.isEmpty_iff])]
      exact List.mem_append_right _ (List.mem_singleton.mpr rfl)

/-- The page at the start of the loop. -/
theorem start_filled (hmax : 0 < maxOpt) (opt : Nat → AuOpt) :
    PageFilled maxOpt ((⟨opt, 0, ⟨0, 0⟩, []⟩ : Page).setTail 0) [] :=
  ⟨⟨fun k e hk => absurd hk (by simp), rfl, fun id hid => absurd hid List.not_mem_nil, List.nodup_nil⟩, rfl, hmax,
    setTail_type _ _⟩

/-- **A string that is accepted**: no option failed, and the loops see its entries up to the first hole. -/
theorem optsParse_accepted {memory : Bool} {opt : Nat → AuOpt} {str : List Char} (hmax : 0 < maxOpt)
    (hok : (auOptsParse cfg env sb memory maxOpt opt str).err = 0) :
    (entriesOf cfg env sb (strsep ',' str) ⟨0, 0⟩).2 = 0 ∧
      auOpts (auOptsParse cfg env sb memory maxOpt opt str).page.opt maxOpt 0 =
        (entriesOf cfg env sb (strsep ',' str) ⟨0, 0⟩).1.takeWhile AuOpt.isOpt := by
  unfold auOptsParse at hok ⊢
  cases memory with
  | false => cases hok
  | true =>
    obtain ⟨hroomy, hover⟩ :=
      @parseItems_spec cfg env sb _ _ _ (strsep ',' str) (start_filled hmax opt)
    have hvars : ((⟨opt, 0, ⟨0, 0⟩, []⟩ : Page).setTail 0).vars = ⟨0, 0⟩ := rfl
    rw [List.nil_append, List.length_nil, Nat.zero_add, hvars] at hroomy hover
    rw [if_neg (show ¬(!true) = true by decide)] at hok ⊢
    by_cases hlt : (entriesOf cfg env sb (strsep ',' str) ⟨0, 0⟩).1.length < maxOpt
    · obtain ⟨p', hrun, hfill⟩ := hroomy hlt
      rw [hrun] at hok ⊢
      refine ⟨hok, auOpts_tail hlt (fun k e hk => ?_) ?_⟩
      · rw [Nat.zero_add]
        exact hfill.entries k e hk
      · rw [Nat.zero_add, ← hfill.next]
        exact hfill.tail
    · obtain ⟨p', hrun, -⟩ := hover (by omega)
      rw [hrun] at hok
      cases hok

/-- A string of which no option fails, and which the page has room for. -/
theorem optsParse_roomy {opt : Nat → AuOpt} {str : List Char} (hmax : 0 < maxOpt)
    (hok : (entriesOf cfg env sb (strsep ',' str) ⟨0, 0⟩).2 = 0)
    (hlen : (entriesOf cfg env sb (strsep ',' str) ⟨0, 0⟩).1.length < maxOpt) :
    (auOptsParse cfg env sb true maxOpt opt str).err = 0 := by
  obtain ⟨hroomy, -⟩ := @parseItems_spec cfg env sb _ _ _ (strsep ',' str) (start_filled hmax opt)
  have hvars : ((⟨opt, 0, ⟨0, 0⟩, []⟩ : Page).setTail 0).vars = ⟨0, 0⟩ := rfl
  rw [List.nil_append, List.length_nil, Nat.zero_add, hvars] at hroomy
  obtain ⟨p', hrun, -⟩ := hroomy hlen
  unfold auOptsParse
  rw [if_neg (show ¬(!true) = true by decide), hrun]
  exact hok

/-- **When there is a tail, and everything is put once.** -/
theorem optsParse_iff (cfg : OptsConfig) (env : OptsEnv) (sb : OptsSb) (memory : Bool) (maxOpt : Nat)
    (opt : Nat → AuOpt) (str : List Char) (hmax : 0 < maxOpt) :
    ParseOk maxOpt (auOptsParse cfg env sb memory maxOpt opt str) ↔
      ParseFrees cfg env sb memory maxOpt opt str := by
  unfold auOptsParse ParseFrees
  cases memory with
  | false =>
    exact ⟨fun h => h.tail, fun h => ⟨h, fun _ => rfl, List.nodup_nil⟩⟩
  | true =>
    obtain ⟨hroomy, hover⟩ :=
      @parseItems_spec cfg env sb _ _ _ (strsep ',' str) (start_filled hmax opt)
    have hvars : ((⟨opt, 0, ⟨0, 0⟩, []⟩ : Page).setTail 0).vars = ⟨0, 0⟩ := rfl
    rw [List.nil_append, List.length_nil, Nat.zero_add, hvars] at hroomy hover
    rw [if_pos rfl, if_neg (show ¬(!true) = true by decide)]
    by_cases hlt : (entriesOf cfg env sb (strsep ',' str) ⟨0, 0⟩).1.length < maxOpt
    · obtain ⟨p', hrun, hfill⟩ := hroomy hlt
      have htail : ∃ i < maxOpt, (p'.opt i).type = .tail := ⟨p'.next, hfill.next ▸ hlt, hfill.tail⟩
      rw [hrun, List.take_of_length_le (Nat.le_of_lt hlt)]
      dsimp only
      by_cases herr : (entriesOf cfg env sb (strsep ',' str) ⟨0, 0⟩).2 = 0
      · rw [if_neg (fun hne => hne herr)]
        refine ⟨fun _ hor => ?_, fun _ => ⟨htail, fun hne => absurd herr hne, hfill.nodup⟩⟩
        rcases hor with hne | hle
        · exact absurd herr hne
        · omega
      · rw [if_pos herr]
        refine ⟨fun hok _ => hfill.frees.mp (hok.freed herr), fun hall => ⟨htail, fun _ => ?_, hfill.nodup⟩⟩
        exact hfill.frees.mpr (hall (Or.inl herr))
    · obtain ⟨p', hrun, hful⟩ := hover (by omega)
      have herr : -E2BIG ≠ 0 := by decide
      rw [hrun]
      dsimp only
      rw [if_pos herr]
      constructor
      · intro hok _
        exact (hful.frees hmax).mp ⟨hok.tail, hok.freed herr⟩
      · intro hall
        obtain ⟨htail, hfreed⟩ := (hful.frees hmax).mpr (hall (Or.inr (by omega)))
        exact ⟨htail, fun _ => hfreed, hful.nodup⟩

/-! ## Strings -/

/-- A configuration without the optional parts. -/
def plainConfig : OptsConfig :=
  ⟨.ilp32, branchMax127, 100, false, false, false, false, false, by decide, by decide⟩

/-- Every path is the same directory, and every file can be created. -/
def anyPath : OptsEnv where
  lookup := fun _ _ => .ok ⟨0, 1, 2, ⟨0, 0⟩⟩
  xinoCreate := fun _ _ => .ok false
  defRr := fun _ => false
  lookup_neg := fun _ _ _ h => by cases h
  xinoCreate_neg := fun _ _ _ h => by cases h

/-- A mount for reading and writing. -/
def freshMount : OptsSb := ⟨false, unmounted⟩

/-- A page of zeros. -/
def zeroPage (_ : Nat) : AuOpt := ⟨.br, .unset⟩

/-- Two branches and an option that is not known: both branches are put. -/
theorem optsParse_two : ParseOk 40
    (auOptsParse plainConfig anyPath freshMount true 40 zeroPage "br:/a:/b,what".toList) :=
  (optsParse_iff plainConfig anyPath freshMount true 40 zeroPage _ (by decide)).mpr fun _ =>
    ⟨by decide +kernel, by decide +kernel⟩

/-- As many branches as the page has entries, and the file behind a `br:` without branches. -/
theorem full_page_and_hole :
    ¬ParseOk 40 (auOptsParse plainConfig anyPath freshMount true 40 zeroPage
      ("br".toList ++ (List.replicate 40 ":/b".toList).flatten)) ∧
    ¬ParseOk 40 (auOptsParse plainConfig anyPath freshMount true 40 zeroPage "br::,xino=/x,what".toList) := by
  constructor
  · intro h
    have hfree : (auOptsParse plainConfig anyPath freshMount true 40 zeroPage
        ("br".toList ++ (List.replicate 40 ":/b".toList).flatten)).freed ≠ none := by
      rw [h.freed (by decide +kernel)]
      exact Option.some_ne_none _
    exact hfree (by decide +kernel)
  · intro h
    have hfree := h.freed (by decide +kernel)
    revert hfree
    decide +kernel

end

end KernelPatches.Aufs
