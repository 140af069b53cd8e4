import Mathlib.Data.List.Induction
import Mathlib.Data.Vector.Basic
import TradeGate.Keyed.Table
import TradeGate.Model.Confirm

/-! The tokens of `ConfirmationStore` over whole runs of its calls: a nonce is accepted once at most,
for what it was issued for and before it expires, and nothing but its expiry or its use takes it
away from its holder.

A call reads the clock several times; the readings of a call come with it. -/
namespace TradeGate
open Keyed

/-- The argument of `toString('hex')`. -/
abbrev RandomBytes := List.Vector UInt8 16

def RandomBytes.hex (b : RandomBytes) : String :=
  String.ofList (b.toList.flatMap fun x => [(x.toNat/16).digitChar,(x.toNat%16).digitChar])

theorem RandomBytes.hex_ne_empty (b : RandomBytes) : b.hex ≠ "" := by
  intro h
  have hchars : b.toList.flatMap (fun x => [(x.toNat/16).digitChar,(x.toNat%16).digitChar])=[] := by
    simpa [hex] using h
  cases hb : b.toList with
  | nil =>
    have hlen := b.toList_length
    rw [hb] at hlen
    cases hlen
  | cons x xs =>
    rw [hb,List.flatMap_cons] at hchars
    cases hchars

structure ConfirmationStore where
  tokens : Table ConfirmToken.nonce

namespace ConfirmationStore

/-- A call of `issue`, with the bytes it draws and the clock as it sweeps, as it dates the token and as
it sets the token's end. -/
structure Issue where
  kind : ConfirmKind
  targetId : String
  fingerprint : String
  random : RandomBytes
  swept : ℕ
  issued : ℕ
  expiring : ℕ

/-- A call of `consume`, with the clock as it sweeps and as it checks the token found. -/
structure Consume where
  nonce : Option String
  kind : ConfirmKind
  targetId : String
  fingerprint : String
  swept : ℕ
  checked : ℕ

inductive ConfirmCode | required | unknown | expired | mismatch
deriving DecidableEq

structure ConfirmRefusal where
  code : ConfirmCode
  message : String
deriving DecidableEq

def empty : ConfirmationStore := ⟨Table.empty⟩

def sweep (s : ConfirmationStore) (now : ℕ) : ConfirmationStore :=
  ⟨s.tokens.filter fun t => now<t.expiresAt⟩

/-- `tokens.delete`. -/
def delete (s : ConfirmationStore) (nonce : String) : ConfirmationStore := ⟨s.tokens.erase nonce⟩

/-- The token that is issued. -/
def Issue.token (i : Issue) : ConfirmToken :=
  { nonce := i.random.hex
    kind := i.kind
    targetId := i.targetId
    fingerprint := i.fingerprint
    issuedAt := i.issued
    expiresAt := i.expiring+confirmTtlMs }

def issue (s : ConfirmationStore) (i : Issue) : ConfirmToken × ConfirmationStore :=
  (i.token,⟨(s.sweep i.swept).tokens.upsert i.token⟩)

/-- The token is looked up before the sweep, and its expiry is checked before what it is for. -/
def consume (s : ConfirmationStore) (c : Consume) :
    Except ConfirmRefusal Unit × ConfirmationStore :=
  match c.nonce.filter fun n => n ≠ "" with
  | none => (.error ⟨.required,"需要先取确认 token(界面上点一下)"⟩,s)
  | some n =>
    match s.tokens.lookup n with
    | none => (.error ⟨.unknown,"确认 token 不存在或已用过"⟩,s.sweep c.swept)
    | some t =>
      if t.expiresAt ≤ c.checked then
        (.error ⟨.expired,"确认 token 已过期(120 秒),请重新点"⟩,(s.sweep c.swept).delete n)
      else if t.kind ≠ c.kind ∨ t.targetId ≠ c.targetId then
        (.error ⟨.mismatch,"确认 token 不是给这个对象的"⟩,s.sweep c.swept)
      else if t.fingerprint ≠ c.fingerprint then
        (.error ⟨.mismatch,"对象内容在你点确认之后变了,请重新看一遍再点"⟩,s.sweep c.swept)
      else (.ok (),(s.sweep c.swept).delete n)

inductive Call
  | issue (i : Issue)
  | consume (c : Consume)

/-- The clock as the call reads it, in the order it is read. -/
def Call.readings : Call → List ℕ
  | .issue i => [i.swept,i.issued,i.expiring]
  | .consume c => [c.swept,c.checked]

def step (s : ConfirmationStore) : Call → ConfirmationStore
  | .issue i => (s.issue i).2
  | .consume c => (s.consume c).2

def run (calls : List Call) : ConfirmationStore := calls.foldl step empty

/-- The nonce that a call uses up: that of a consumption answered with ok. -/
def accepted (s : ConfirmationStore) : Call → Option String
  | .issue _ => none
  | .consume c =>
    match (s.consume c).1 with
    | .ok _ => c.nonce
    | .error _ => none

/-- The nonces used up in a run, in order. -/
def uses : ConfirmationStore → List Call → List String
  | _, [] => []
  | s, c::cs => (s.accepted c).toList ++ uses (s.step c) cs

/-- The nonces drawn in a run. -/
def drawn (calls : List Call) : List String := calls.filterMap fun
  | .issue i => some i.random.hex
  | .consume _ => none

/-- The clock does not go back. -/
def Steady (calls : List Call) : Prop := (calls.flatMap Call.readings).Pairwise (· ≤ ·)

instance (calls : List Call) : Decidable (Steady calls) :=
  inferInstanceAs (Decidable (List.Pairwise _ _))

/-- The consumption names the nonce of the issue and what it was issued for. -/
def Consume.Rightful (c : Consume) (i : Issue) : Prop :=
  c.nonce=some i.random.hex ∧ c.kind=i.kind ∧ c.targetId=i.targetId ∧ c.fingerprint=i.fingerprint

instance (c : Consume) (i : Issue) : Decidable (c.Rightful i) := inferInstanceAs (Decidable (_ ∧ _))

section
variable {s : ConfirmationStore} {c : Consume} {i : Issue} {call : Call} {t : ConfirmToken}
  {n : String}

theorem lookup_sweep {now : ℕ} :
    (s.sweep now).tokens.lookup n=some t ↔ s.tokens.lookup n=some t ∧ now<t.expiresAt := by
  simp [sweep,Table.lookup_filter_eq_some_iff]

theorem lookup_delete {m : String} :
    (s.delete m).tokens.lookup n=some t ↔ s.tokens.lookup n=some t ∧ n ≠ m :=
  Table.lookup_erase_eq_some_iff

/-- The token is held under the nonce of the consumption, and was issued for what it names. -/
def Fits (s : ConfirmationStore) (c : Consume) (t : ConfirmToken) : Prop :=
  c.nonce=some t.nonce ∧ s.tokens.lookup t.nonce=some t ∧ t.kind=c.kind ∧ t.targetId=c.targetId ∧
    t.fingerprint=c.fingerprint

/-- A token that fits and has not expired is used up. -/
theorem consume_of_fits (h : s.Fits c t) (hne : t.nonce ≠ "") (hlive : c.checked<t.expiresAt) :
    s.consume c=(.ok (),(s.sweep c.swept).delete t.nonce) := by
  obtain ⟨hn,hl,hk,hid,hf⟩ := h
  have hfound : c.nonce.filter (fun n => n ≠ "")=some t.nonce := by simp [hn,hne]
  simp only [consume,hfound,hl,hk,hid,hf,not_le.mpr hlive,if_false,ne_eq,not_true_eq_false,or_self]

/-- What a consumption does to the store: nothing or a sweep, but for the token it finds expired and
the one it uses up. -/
theorem consume_cases (s : ConfirmationStore) (c : Consume) :
    (∃ r, s.consume c=(.error r,s)) ∨
    (∃ r, s.consume c=(.error r,s.sweep c.swept)) ∨
    (∃ r t, t.expiresAt ≤ c.checked ∧ s.tokens.lookup t.nonce=some t ∧
      s.consume c=(.error r,(s.sweep c.swept).delete t.nonce)) ∨
    ∃ t, s.Fits c t ∧ c.checked<t.expiresAt ∧
      s.consume c=(.ok (),(s.sweep c.swept).delete t.nonce) := by
  unfold consume
  split
  next => exact .inl ⟨_,rfl⟩
  next n hn =>
    obtain ⟨hn,-⟩ := Option.filter_eq_some_iff.mp hn
    split
    next => exact .inr (.inl ⟨_,rfl⟩)
    next t ht =>
      have hnt : t.nonce=n := Table.key_of_lookup ht
      subst hnt
      split_ifs with hexp hfor hprint
      · exact .inr (.inr (.inl ⟨_,t,hexp,ht,rfl⟩))
      · exact .inr (.inl ⟨_,rfl⟩)
      · exact .inr (.inl ⟨_,rfl⟩)
      · rw [not_or,not_not,not_not] at hfor
        exact .inr (.inr (.inr ⟨t,⟨hn,ht,hfor.1,hfor.2,not_not.mp hprint⟩,not_le.mp hexp,rfl⟩))

theorem accepted_of_error {r : ConfirmRefusal} (h : (s.consume c).1=.error r) :
    s.accepted (.consume c)=none := by
  simp only [accepted,h]

theorem accepted_of_ok (h : (s.consume c).1=.ok ()) : s.accepted (.consume c)=c.nonce := by
  simp only [accepted,h]

/-- What is used up was held under its nonce. -/
theorem accepted_eq_some (h : s.accepted call=some n) : ∃ c t, call=.consume c ∧ n=t.nonce ∧
    s.Fits c t ∧ c.checked<t.expiresAt ∧ (s.step call).tokens.lookup n=none := by
  cases call with
  | issue i => cases h
  | consume c =>
    obtain ⟨r,hc⟩ | ⟨r,hc⟩ | ⟨r,t,-,-,hc⟩ | ⟨t,hfit,hlive,hc⟩ := s.consume_cases c
    · rw [accepted_of_error (by rw [hc])] at h
      cases h
    · rw [accepted_of_error (by rw [hc])] at h
      cases h
    · rw [accepted_of_error (by rw [hc])] at h
      cases h
    · rw [accepted_of_ok (by rw [hc]),hfit.1,Option.some_inj] at h
      subst h
      refine ⟨c,t,rfl,rfl,hfit,hlive,?_⟩
      rw [step,hc,Option.eq_none_iff_forall_ne_some]
      intro u hu
      exact (lookup_delete.mp hu).2 rfl

/-- A token in the store was there before the call, or is the one it issues. -/
theorem lookup_of_step (h : (s.step call).tokens.lookup n=some t) :
    s.tokens.lookup n=some t ∨ ∃ i, call=.issue i ∧ t=i.token ∧ n=i.random.hex := by
  cases call with
  | issue i =>
    simp only [step,issue,Table.lookup_upsert] at h
    split at h
    next hn =>
      cases h
      exact .inr ⟨i,rfl,rfl,hn.symm⟩
    next => exact .inl (lookup_sweep.mp h).1
  | consume c =>
    left
    simp only [step] at h
    obtain ⟨r,hc⟩ | ⟨r,hc⟩ | ⟨r,t,-,-,hc⟩ | ⟨t,-,-,hc⟩ := s.consume_cases c <;> rw [hc] at h
    · exact h
    · exact (lookup_sweep.mp h).1
    · exact (lookup_sweep.mp (lookup_delete.mp h).1).1
    · exact (lookup_sweep.mp (lookup_delete.mp h).1).1

/-- A token stays in the store until it expires, is used up or has its nonce drawn again. -/
theorem lookup_step (h : s.tokens.lookup n=some t) (hlive : ∀ r ∈ call.readings, r<t.expiresAt)
    (hunused : s.accepted call ≠ some n) (hnew : ∀ i, call=.issue i → i.random.hex ≠ n) :
    (s.step call).tokens.lookup n=some t := by
  cases call with
  | issue i =>
    have hswept : i.swept<t.expiresAt := hlive i.swept (by simp [Call.readings])
    simp only [step,issue,Table.lookup_upsert]
    rw [if_neg (show i.token.nonce ≠ n from hnew i rfl)]
    exact lookup_sweep.mpr ⟨h,hswept⟩
  | consume c =>
    have hswept : c.swept<t.expiresAt := hlive c.swept (by simp [Call.readings])
    have hchecked : c.checked<t.expiresAt := hlive c.checked (by simp [Call.readings])
    have hkept : (s.sweep c.swept).tokens.lookup n=some t := lookup_sweep.mpr ⟨h,hswept⟩
    simp only [step]
    obtain ⟨r,hc⟩ | ⟨r,hc⟩ | ⟨r,u,hexp,hu,hc⟩ | ⟨u,hfit,hu,hc⟩ := s.consume_cases c
    · rw [hc]
      exact h
    · rw [hc]
      exact hkept
    · rw [hc]
      refine lookup_delete.mpr ⟨hkept,?_⟩
      rintro rfl
      rw [h] at hu
      cases hu
      omega
    · rw [accepted_of_ok (by rw [hc]),hfit.1] at hunused
      rw [hc]
      refine lookup_delete.mpr ⟨hkept,?_⟩
      rintro rfl
      exact hunused rfl

end

/-! ### The store of the runtime -/

/-- The runtime consumes as the store does, with one clock for the call. -/
theorem consumeToken_eq_consume {r : Runtime} {s : ConfirmationStore}
    (h : r.confirmations=s.tokens.rows) (c : Consume) (hs : c.swept=r.now) (hc : c.checked=r.now) :
    r.consumeToken c.nonce c.kind c.targetId c.fingerprint=
      ((s.consume c).1.mapError ConfirmRefusal.message,
        { r with confirmations := (s.consume c).2.tokens.rows }) := by
  have hsweep : r.sweepTokens={ r with confirmations := (s.sweep c.swept).tokens.rows } := by
    rw [Runtime.sweepTokens,h,hs]
    rfl
  have hfind : ∀ n, (r.confirmations.find? fun t => t.nonce=n)=s.tokens.lookup n := by
    intro n
    rw [h]
    rfl
  have hdelete : ∀ t, s.tokens.lookup t.nonce=some t → t.expiresAt ≤ r.now →
      ((s.sweep c.swept).delete t.nonce).tokens.rows=(s.sweep c.swept).tokens.rows := by
    intro t ht hexp
    apply List.filter_eq_self.mpr
    intro u hu
    have hu := List.mem_filter.mp hu
    rw [decide_eq_true_iff]
    intro hne
    rw [← hne,Table.lookup_of_mem hu.1] at ht
    cases ht
    have hlive := of_decide_eq_true hu.2
    omega
  cases hn : c.nonce.filter fun n => n ≠ "" with
  | none =>
    simp only [Runtime.consumeToken,consume,hn,← h]
    rfl
  | some n =>
    cases ht : s.tokens.lookup n with
    | none =>
      simp only [Runtime.consumeToken,consume,hn,hfind,ht,hsweep]
      rfl
    | some t =>
      have hnt : t.nonce=n := Table.key_of_lookup ht
      subst hnt
      simp only [Runtime.consumeToken,consume,hn,hfind,ht,hsweep,hc]
      split_ifs with hexp
      · simp only [hdelete t ht hexp,Except.mapError]
      all_goals rfl

/-! ### Runs -/

section
variable {calls : List Call}

theorem run_concat (calls : List Call) (c : Call) : run (calls ++ [c])=(run calls).step c := by
  simp [run]

theorem uses_append (s : ConfirmationStore) (xs ys : List Call) :
    s.uses (xs ++ ys)=s.uses xs ++ (xs.foldl step s).uses ys := by
  induction xs generalizing s with
  | nil => rfl
  | cons x xs ih => rw [List.cons_append,uses,ih,uses,List.append_assoc,List.foldl_cons]

theorem uses_concat (calls : List Call) (c : Call) :
    empty.uses (calls ++ [c])=empty.uses calls ++ ((run calls).accepted c).toList := by
  rw [uses_append,uses,uses,List.append_nil,run]

theorem mem_drawn {n : String} : n ∈ drawn calls ↔ ∃ i, .issue i ∈ calls ∧ i.random.hex=n := by
  simp only [drawn,List.mem_filterMap]
  constructor
  · rintro ⟨c,hc,hn⟩
    cases c with
    | issue i => exact ⟨i,hc,Option.some.inj hn⟩
    | consume c => cases hn
  · rintro ⟨i,hi,rfl⟩
    exact ⟨_,hi,rfl⟩

theorem drawn_append (xs ys : List Call) : drawn (xs ++ ys)=drawn xs ++ drawn ys := by
  simp [drawn]

/-- The store against the run that led to it: what is used up was drawn, a token in the store is
unused and as it was issued, and a token that is unused and has not expired is in the store. -/
structure Recorded (calls : List Call) : Prop where
  once : (empty.uses calls).Nodup
  drawn : ∀ n ∈ empty.uses calls, n ∈ drawn calls
  issued : ∀ n t, (run calls).tokens.lookup n=some t →
    n ∉ empty.uses calls ∧ ∃ i, .issue i ∈ calls ∧ t=i.token
  held : ∀ i, .issue i ∈ calls → i.random.hex ∉ empty.uses calls →
    (∀ r ∈ calls.flatMap Call.readings, r < i.token.expiresAt) →
      (run calls).tokens.lookup i.random.hex=some i.token

theorem recorded_nil : Recorded [] where
  once := List.nodup_nil
  drawn := by intro n hn; cases hn
  issued := by intro n t h; cases h
  held := by intro i hi; cases hi

theorem Recorded.concat_issue {i : Issue} (h : Recorded calls)
    (hnew : i.random.hex ∉ ConfirmationStore.drawn calls) : Recorded (calls ++ [.issue i]) := by
  have huses : empty.uses (calls ++ [.issue i])=empty.uses calls := by
    rw [uses_concat]
    exact List.append_nil _
  constructor
  · rw [huses]
    exact h.once
  · intro n hn
    rw [huses] at hn
    rw [drawn_append]
    exact List.mem_append_left _ (h.drawn n hn)
  · intro n t ht
    rw [huses]
    rw [run_concat] at ht
    obtain hold | ⟨j,hj,rfl,rfl⟩ := lookup_of_step ht
    · obtain ⟨hunused,j,hj,rfl⟩ := h.issued n t hold
      exact ⟨hunused,j,List.mem_append_left _ hj,rfl⟩
    · cases hj
      exact ⟨fun hn => hnew (h.drawn _ hn),i,by simp,rfl⟩
  · intro j hj hunused hlive
    rw [huses] at hunused
    rw [run_concat]
    obtain hj | hj := List.mem_append.mp hj
    · refine lookup_step (h.held j hj hunused fun r hr => hlive r ?_) (fun r hr => hlive r ?_)
        (by simp [accepted]) ?_
      · rw [List.flatMap_append]
        exact List.mem_append_left _ hr
      · rw [List.flatMap_append]
        exact List.mem_append_right _ (by simpa using hr)
      · rintro k hk hkj
        cases hk
        exact hnew (mem_drawn.mpr ⟨j,hj,hkj.symm⟩)
    · cases List.mem_singleton.mp hj
      exact Table.lookup_upsert_self _ _

theorem Recorded.concat_consume {c : Consume} (h : Recorded calls) :
    Recorded (calls ++ [.consume c]) := by
  have hdrawn : ConfirmationStore.drawn (calls ++ [.consume c])=ConfirmationStore.drawn calls := by
    simp [ConfirmationStore.drawn]
  have hmem : ∀ n, n ∈ empty.uses (calls ++ [.consume c]) ↔
      n ∈ empty.uses calls ∨ (run calls).accepted (.consume c)=some n := by
    intro n
    rw [uses_concat,List.mem_append,Option.mem_toList]
  have hused : ∀ n, (run calls).accepted (.consume c)=some n → n ∉ empty.uses calls ∧
      n ∈ ConfirmationStore.drawn calls := by
    intro n hn
    obtain ⟨_,t,-,rfl,hfit,-,-⟩ := accepted_eq_some hn
    obtain ⟨hunused,i,hi,rfl⟩ := h.issued _ _ hfit.2.1
    exact ⟨hunused,mem_drawn.mpr ⟨i,hi,rfl⟩⟩
  constructor
  · rw [uses_concat]
    cases hn : (run calls).accepted (.consume c) with
    | none => simpa using h.once
    | some n =>
      refine List.Nodup.append h.once (List.nodup_singleton n) ?_
      intro m hm hmn
      cases List.mem_singleton.mp hmn
      exact (hused n hn).1 hm
  · intro n hn
    rw [hdrawn]
    obtain hn | hn := (hmem n).mp hn
    · exact h.drawn n hn
    · exact (hused n hn).2
  · intro n t ht
    rw [run_concat] at ht
    obtain hold | ⟨i,hi,-⟩ := lookup_of_step ht
    · obtain ⟨hunused,i,hi,rfl⟩ := h.issued n t hold
      refine ⟨?_,i,List.mem_append_left _ hi,rfl⟩
      intro hn
      obtain hn | hn := (hmem n).mp hn
      · exact hunused hn
      · obtain ⟨-,-,-,-,-,-,hgone⟩ := accepted_eq_some hn
        rw [hgone] at ht
        cases ht
    · cases hi
  · intro i hi hunused hlive
    rw [hmem,not_or] at hunused
    rw [run_concat]
    have hi : Call.issue i ∈ calls := by simpa using hi
    refine lookup_step (h.held i hi hunused.1 fun r hr => hlive r ?_) (fun r hr => hlive r ?_)
      hunused.2 (by intro k hk; cases hk)
    · rw [List.flatMap_append]
      exact List.mem_append_left _ hr
    · rw [List.flatMap_append]
      exact List.mem_append_right _ (by simpa using hr)

theorem recorded (h : (drawn calls).Nodup) : Recorded calls := by
  induction calls using List.reverseRecOn with
  | nil => exact recorded_nil
  | append_singleton calls c ih =>
    rw [drawn_append] at h
    have hr := ih (List.nodup_append.mp h).1
    cases c with
    | issue i =>
      refine hr.concat_issue fun hi => ?_
      exact (List.nodup_append.mp h).2.2 _ hi _ (by simp [drawn]) rfl
    | consume c => exact hr.concat_consume

end

section
variable {calls : List Call}

/-- What a consumption answered with ok used up was issued before for what it names, and has not
expired. -/
theorem issued_of_ok {c : Consume} (fresh : (drawn calls).Nodup)
    (h : ((run calls).consume c).1=.ok ()) :
    ∃ i, .issue i ∈ calls ∧ c.Rightful i ∧ c.checked < i.expiring+confirmTtlMs := by
  obtain ⟨r,hc⟩ | ⟨r,hc⟩ | ⟨r,t,-,-,hc⟩ | ⟨t,hfit,hlive,hc⟩ := (run calls).consume_cases c
  · rw [hc] at h
    cases h
  · rw [hc] at h
    cases h
  · rw [hc] at h
    cases h
  · obtain ⟨hn,hl,hk,hid,hf⟩ := hfit
    obtain ⟨-,i,hi,rfl⟩ := (recorded fresh).issued _ _ hl
    exact ⟨i,hi,⟨hn,hk.symm,hid.symm,hf.symm⟩,hlive⟩

/-- A token that is not used up and has not expired is accepted from its holder. -/
theorem ok_of_issued {i : Issue} {c : Consume} (fresh : (drawn calls).Nodup)
    (clock : Steady (calls ++ [.consume c])) (hi : .issue i ∈ calls)
    (hunused : i.random.hex ∉ empty.uses calls) (hc : c.Rightful i)
    (hlive : c.checked < i.expiring+confirmTtlMs) : ((run calls).consume c).1=.ok () := by
  obtain ⟨hn,hk,hid,hf⟩ := hc
  have hbefore : ∀ r ∈ calls.flatMap Call.readings, r < i.token.expiresAt := by
    intro r hr
    rw [Steady,List.flatMap_append,List.pairwise_append] at clock
    exact lt_of_le_of_lt (clock.2.2 r hr c.checked (by simp [Call.readings])) hlive
  have hheld := (recorded fresh).held i hi hunused hbefore
  have hfit : (run calls).Fits c i.token := ⟨hn,hheld,hk.symm,hid.symm,hf.symm⟩
  rw [consume_of_fits hfit i.random.hex_ne_empty hlive]

/-- In every run with nonces that are distinct, each nonce is accepted once at most; what is accepted
was issued before for the same kind, target and fingerprint, and is checked less than 120 seconds after the
reading of the clock that its expiry was computed from (a later reading than the one it bears); and after a
consumption refused as a mismatch, whatever was issued, not used up and not expired is still accepted
from its holder. -/
theorem tokens_single_use (calls : List Call) (fresh : (drawn calls).Nodup) :
    (empty.uses calls).Nodup ∧
    (∀ before c after, calls=before ++ .consume c::after →
      ((run before).consume c).1=.ok () →
        ∃ i, .issue i ∈ before ∧ c.Rightful i ∧ c.checked < i.expiring+confirmTtlMs) ∧
    ∀ before c after r, calls=before ++ .consume c::after →
      ((run before).consume c).1=.error r → r.code=.mismatch →
        ∀ i d, .issue i ∈ before → i.random.hex ∉ empty.uses before →
          Steady (before ++ [.consume c,.consume d]) → d.Rightful i →
            d.checked < i.expiring+confirmTtlMs →
              ((run (before ++ [.consume c])).consume d).1=.ok () := by
  refine ⟨(recorded fresh).once,?_,?_⟩
  · rintro before c after rfl h
    rw [drawn_append] at fresh
    exact issued_of_ok (List.nodup_append.mp fresh).1 h
  · rintro before c after r rfl h - i d hi hunused clock hd hlive
    rw [List.append_cons,drawn_append] at fresh
    refine ok_of_issued (List.nodup_append.mp fresh).1 (by simpa using clock)
      (List.mem_append_left _ hi) ?_ hd hlive
    rw [uses_concat,accepted_of_error h]
    simpa using hunused

/-- A confirmation of the proposal `int-1`. -/
def proposalShown : Issue := ⟨.intent,"int-1","fp",.replicate 16 7,5,5,6⟩

/-- It is refused for another proposal, and then accepted for its own. -/
theorem tokens_single_use_mismatch :
    ((run [.issue proposalShown,
      .consume ⟨some proposalShown.random.hex,.intent,"int-2","fp",9,9⟩]).consume
        ⟨some proposalShown.random.hex,.intent,"int-1","fp",120005,120005⟩).1=.ok () := by
  refine (tokens_single_use [.issue proposalShown,
    .consume ⟨some proposalShown.random.hex,.intent,"int-2","fp",9,9⟩]
      (List.nodup_singleton _)).2.2 [.issue proposalShown] _ []
        ⟨.mismatch,"确认 token 不是给这个对象的"⟩ rfl ?_ rfl proposalShown _
          (List.mem_singleton.mpr rfl) ?_ ?_ ⟨rfl,rfl,rfl,rfl⟩ (by decide)
  · rfl
  · decide
  · decide

end

end ConfirmationStore
end TradeGate
