import Mathlib.Data.List.Basic
import Mathlib.Data.Nat.Notation
import Mathlib.Tactic.Common

/-! One end of a byte stream.  A talk writes, and waits for what it reads; it ends with a result or fails, and
what was written stays written. -/

/-- What was sent, and what comes in and was not read. -/
structure Conn where
  sent : List UInt8
  unread : List UInt8

def Talk (ε α : Type) : Type := Conn → Except ε α × Conn

namespace Talk

variable {ε α β : Type}

instance : Monad (Talk ε) where
  pure a := fun c => (.ok a,c)
  bind p f := fun c =>
    match p c with
    | (.ok a,c') => f a c'
    | (.error e,c') => (.error e,c')

def fail (e : ε) : Talk ε α := fun c => (.error e,c)

def write (bs : List UInt8) : Talk ε Unit := fun c => (.ok (),⟨c.sent++bs,c.unread⟩)

/-- The next bytes, all of them; the stream may end before. -/
def readExact (closed : ε) (n : ℕ) : Talk ε (List UInt8) := fun c =>
  if n ≤ c.unread.length then (.ok (c.unread.take n),⟨c.sent,c.unread.drop n⟩) else (.error closed,⟨c.sent,[]⟩)

/-- Reading goes on byte by byte until `done` holds of all that was read, or more than `limit` was. -/
def readOn (done : List UInt8 → Bool) (limit : ℕ) (closed : ε) (sent : List UInt8) :
    List UInt8 → List UInt8 → Except ε (List UInt8) × Conn
  | got, unread =>
    if done got then (.ok got,⟨sent,unread⟩)
    else if limit<got.length then (.error closed,⟨sent,unread⟩)
    else match unread with
      | [] => (.error closed,⟨sent,[]⟩)
      | b::bs => readOn done limit closed sent (got++[b]) bs

def readUntil (done : List UInt8 → Bool) (limit : ℕ) (closed : ε) : Talk ε (List UInt8) :=
  fun c => readOn done limit closed c.sent [] c.unread

/-- The talk ends well by these dialogues and by no others: its result, what it says and what it hears. -/
def Speaks (p : Talk ε α) (L : α → List UInt8 → List UInt8 → Prop) : Prop :=
  ∀ c a c', p c=(.ok a,c') ↔ ∃ said heard, L a said heard ∧ c'.sent=c.sent++said ∧ c.unread=heard++c'.unread

/-- However the talk ends, this is so of what it said and heard. -/
def Says (p : Talk ε α) (S : List UInt8 → List UInt8 → Prop) : Prop :=
  ∀ c, ∃ said heard, S said heard ∧ (p c).2.sent=c.sent++said ∧ c.unread=heard++(p c).2.unread

section
variable {p : Talk ε α} {f : α → Talk ε β} {L L' : α → List UInt8 → List UInt8 → Prop}
  {M : α → β → List UInt8 → List UInt8 → Prop} {S S' : List UInt8 → List UInt8 → Prop} {a : α} {e closed : ε}
  {bs : List UInt8} {n : ℕ}

theorem bind_ok {b : β} {c c' : Conn} : (p >>= f) c=(.ok b,c') ↔ ∃ a d, p c=(.ok a,d) ∧ f a d=(.ok b,c') := by
  change (match p c with
    | (.ok a,d) => f a d
    | (.error e,d) => (.error e,d))=_ ↔ _
  rcases p c with ⟨a | a,d⟩ <;> simp

namespace Speaks

theorem congr (h : Speaks p L) (hl : ∀ a said heard, L a said heard ↔ L' a said heard) : Speaks p L' := by
  intro c a c'
  rw [h c a c']
  simp only [hl]

theorem done : Speaks (pure a : Talk ε α) fun b said heard => b=a ∧ said=[] ∧ heard=[] := by
  intro c b c'
  change (Except.ok a,c)=(Except.ok b,c') ↔ _
  constructor
  · rintro ⟨⟩
    exact ⟨[],[],⟨rfl,rfl,rfl⟩,by simp,by simp⟩
  · rintro ⟨_,_,⟨rfl,rfl,rfl⟩,hs,hu⟩
    cases c
    cases c'
    simp_all

theorem fail : Speaks (fail e : Talk ε α) fun _ _ _ => False := by
  intro c b c'
  simp [Talk.fail]

theorem write : Speaks (write bs : Talk ε Unit) fun _ said heard => said=bs ∧ heard=[] := by
  rintro c ⟨⟩ ⟨sent,unread⟩
  simp only [Talk.write,Prod.mk.injEq,Conn.mk.injEq,true_and]
  constructor
  · rintro ⟨hs,hu⟩
    exact ⟨bs,[],⟨rfl,rfl⟩,hs.symm,hu⟩
  · rintro ⟨_,_,⟨rfl,rfl⟩,hs,hu⟩
    exact ⟨hs.symm,hu⟩

theorem ite {c : Prop} [Decidable c] {q : Talk ε α} (hp : Speaks p L) (hq : Speaks q L') :
    Speaks (if c then p else q) fun a said heard => c ∧ L a said heard ∨ ¬c ∧ L' a said heard := by
  by_cases hc : c
  · simpa [hc] using hp
  · simpa [hc] using hq

theorem readExact : Speaks (readExact closed n) fun a said heard => said=[] ∧ heard=a ∧ a.length=n := by
  rintro c a ⟨sent,unread⟩
  unfold Talk.readExact
  constructor
  · intro h
    split_ifs at h with hn
    · cases h
      exact ⟨[],_,⟨rfl,rfl,List.length_take_of_le hn⟩,by simp,by simp⟩
    · cases h
  · rintro ⟨_,_,⟨rfl,rfl,rfl⟩,hs,hu⟩
    have hsent : sent=c.sent := by simpa using hs
    rw [hu,if_pos (by simp),List.take_left,List.drop_left,hsent]

theorem bind (hp : Speaks p L) (hf : ∀ a, Speaks (f a) (M a)) :
    Speaks (p >>= f) fun b said heard => ∃ a s₁ h₁ s₂ h₂, L a s₁ h₁ ∧ M a b s₂ h₂ ∧ said=s₁++s₂ ∧ heard=h₁++h₂ := by
  intro c b c'
  rw [bind_ok]
  constructor
  · rintro ⟨a,d,hpd,hfd⟩
    obtain ⟨s₁,h₁,hl,hs,hu⟩ := (hp c a d).mp hpd
    obtain ⟨s₂,h₂,hm,hs',hu'⟩ := (hf a d b c').mp hfd
    refine ⟨_,_,⟨a,s₁,h₁,s₂,h₂,hl,hm,rfl,rfl⟩,?_,?_⟩
    · rw [hs',hs,List.append_assoc]
    · rw [hu,hu',List.append_assoc]
  · rintro ⟨_,_,⟨a,s₁,h₁,s₂,h₂,hl,hm,rfl,rfl⟩,hs,hu⟩
    refine ⟨a,⟨c.sent++s₁,h₂++c'.unread⟩,?_,?_⟩
    · exact (hp c a _).mpr ⟨s₁,h₁,hl,rfl,by rw [hu,List.append_assoc]⟩
    · exact (hf a _ b c').mpr ⟨s₂,h₂,hm,by rw [hs,List.append_assoc],rfl⟩

theorem say {g : Unit → Talk ε α} (hg : Speaks (g ()) L) :
    Speaks (Talk.write bs >>= g) fun a said heard => ∃ s, L a s heard ∧ said=bs++s := by
  refine (bind write fun _ => hg).congr fun a said heard => ?_
  constructor
  · rintro ⟨_,_,_,s,_,⟨rfl,rfl⟩,hl,rfl,rfl⟩
    exact ⟨s,hl,rfl⟩
  · rintro ⟨s,hl,rfl⟩
    exact ⟨(),bs,[],s,heard,⟨rfl,rfl⟩,hl,rfl,rfl⟩

theorem hear {g : List UInt8 → Talk ε α} {M : List UInt8 → α → List UInt8 → List UInt8 → Prop}
    (hg : ∀ b, Speaks (g b) (M b)) :
    Speaks (Talk.readExact closed n >>= g) fun a said heard => ∃ b h, b.length=n ∧ M b a said h ∧ heard=b++h := by
  refine (bind readExact hg).congr fun a said heard => ?_
  constructor
  · rintro ⟨b,_,_,s,h,⟨rfl,rfl,hb⟩,hm,rfl,rfl⟩
    exact ⟨_,h,hb,hm,rfl⟩
  · rintro ⟨b,h,hb,hm,rfl⟩
    exact ⟨b,[],b,said,h,⟨rfl,rfl,hb⟩,hm,rfl,rfl⟩

end Speaks

namespace Says

theorem mono (h : Says p S) (hs : ∀ said heard, S said heard → S' said heard) : Says p S' := by
  intro c
  obtain ⟨said,heard,hS,hsent,hunread⟩ := h c
  exact ⟨said,heard,hs said heard hS,hsent,hunread⟩

theorem done : Says (pure a : Talk ε α) fun said heard => said=[] ∧ heard=[] :=
  fun _ => ⟨[],[],⟨rfl,rfl⟩,(List.append_nil _).symm,rfl⟩

theorem fail : Says (fail e : Talk ε α) fun said heard => said=[] ∧ heard=[] :=
  fun _ => ⟨[],[],⟨rfl,rfl⟩,(List.append_nil _).symm,rfl⟩

theorem write : Says (write bs : Talk ε Unit) fun said heard => said=bs ∧ heard=[] :=
  fun _ => ⟨bs,[],⟨rfl,rfl⟩,rfl,rfl⟩

theorem readExact : Says (readExact closed n) fun said _ => said=[] := by
  intro c
  unfold Talk.readExact
  split_ifs
  · exact ⟨[],_,rfl,(List.append_nil _).symm,(List.take_append_drop n c.unread).symm⟩
  · exact ⟨[],_,rfl,(List.append_nil _).symm,(List.append_nil _).symm⟩

/-- The talk fails in its first part, or that part ends well and the rest goes on from there. -/
theorem bind (hp : Speaks p L) (hs : Says p S) (hf : ∀ a s h, L a s h → Says (f a) fun s' h' => S (s++s') (h++h')) :
    Says (p >>= f) S := by
  intro c
  change ∃ said heard, _ ∧ (match p c with
    | (.ok a,d) => f a d
    | (.error e,d) => (.error e,d)).2.sent=_ ∧ _=_++(match p c with
    | (.ok a,d) => f a d
    | (.error e,d) => (.error e,d)).2.unread
  rcases hpc : p c with ⟨e | a,d⟩
  · obtain ⟨said,heard,hS,hsent,hunread⟩ := hs c
    rw [hpc] at hsent hunread
    exact ⟨said,heard,hS,hsent,hunread⟩
  · obtain ⟨s,h,hl,hsent,hunread⟩ := (hp c a d).mp hpc
    obtain ⟨s',h',hS,hsent',hunread'⟩ := hf a s h hl d
    refine ⟨s++s',h++h',hS,?_,?_⟩
    · rw [hsent',hsent,List.append_assoc]
    · rw [hunread,hunread',List.append_assoc]

theorem say {g : Unit → Talk ε α} (hs : S bs []) (hg : Says (g ()) fun s h => S (bs++s) h) :
    Says (Talk.write bs >>= g) S := by
  refine bind Speaks.write (write.mono ?_) ?_
  · rintro _ _ ⟨rfl,rfl⟩
    exact hs
  · rintro _ _ _ ⟨rfl,rfl⟩
    exact hg

theorem hear {g : List UInt8 → Talk ε α} (hs : ∀ heard, S [] heard) (hg : ∀ b, Says (g b) fun s h => S s (b++h)) :
    Says (Talk.readExact closed n >>= g) S := by
  refine bind Speaks.readExact (readExact.mono ?_) ?_
  · rintro _ heard rfl
    exact hs heard
  · rintro b _ _ ⟨rfl,rfl,-⟩
    exact hg _

/-- A talk that says and hears no more. -/
theorem ends (hp : Says p fun said heard => said=[] ∧ heard=[]) (hs : S [] []) : Says p S := by
  refine hp.mono ?_
  rintro _ _ ⟨rfl,rfl⟩
  exact hs

end Says

end

/-! Reading up to a mark. -/

/-- `done` holds of the bytes and of no shorter part of them, which is not longer than the limit. -/
def Upto (done : List UInt8 → Bool) (limit : ℕ) (a : List UInt8) : Prop :=
  done a=true ∧ ∀ k < a.length, done (a.take k)=false ∧ k ≤ limit

section
variable {ε : Type} {done : List UInt8 → Bool} {limit : ℕ} {closed : ε}

theorem readOn_done {got : List UInt8} (h : done got=true) (sent unread a : List UInt8) (c : Conn) :
    readOn done limit closed sent got unread=(.ok a,c) ↔
    ∃ more, a=got++more ∧ unread=more++c.unread ∧ c.sent=sent ∧ done a=true ∧
      ∀ k < more.length, done (got++more.take k)=false ∧ got.length+k ≤ limit := by
  unfold readOn
  rw [if_pos h]
  constructor
  · rintro ⟨⟩
    exact ⟨[],by simp,rfl,rfl,h,by simp⟩
  · rintro ⟨more,rfl,hu,hs,-,hk⟩
    cases more with
    | nil =>
      cases c
      simp_all
    | cons b bs =>
      have hfirst := (hk 0 (by simp)).1
      simp [h] at hfirst

/-- By induction on what comes in; `got` is what was read before. -/
theorem readOn_iff (sent got unread a : List UInt8) (c : Conn) : readOn done limit closed sent got unread=(.ok a,c) ↔
    ∃ more, a=got++more ∧ unread=more++c.unread ∧ c.sent=sent ∧ done a=true ∧
      ∀ k < more.length, done (got++more.take k)=false ∧ got.length+k ≤ limit := by
  induction unread generalizing got with
  | nil =>
    by_cases hdone : done got=true
    · exact readOn_done hdone ..
    · unfold readOn
      rw [if_neg hdone]
      constructor
      · intro h
        split_ifs at h <;> cases h
      · rintro ⟨more,rfl,hu,-,hd,-⟩
        obtain ⟨rfl,-⟩ := List.append_eq_nil_iff.mp hu.symm
        exact absurd (by simpa using hd) hdone
  | cons b bs ih =>
    by_cases hdone : done got=true
    · exact readOn_done hdone ..
    · unfold readOn
      rw [if_neg hdone]
      constructor
      · intro h
        split_ifs at h with hlong
        · cases h
        · obtain ⟨more,rfl,rfl,hs,hd,hk⟩ := (ih (got++[b])).mp h
          refine ⟨b::more,by simp,rfl,hs,hd,fun k hklt => ?_⟩
          cases k with
          | zero => exact ⟨by simpa using hdone,by omega⟩
          | succ k =>
            have := hk k (by simpa using hklt)
            simp only [List.append_assoc,List.singleton_append,List.length_append,List.length_singleton] at this
            exact ⟨this.1,by omega⟩
      · rintro ⟨more,rfl,hu,hs,hd,hk⟩
        cases more with
        | nil => exact absurd (by simpa using hd) hdone
        | cons b' more =>
          obtain ⟨rfl,rfl⟩ := List.cons.inj hu
          have hlong : ¬limit<got.length := by
            have := (hk 0 (by simp)).2
            omega
          rw [if_neg hlong]
          refine (ih (got++[b])).mpr ⟨more,by simp,rfl,hs,hd,fun k hklt => ?_⟩
          have := hk (k+1) (by simpa using hklt)
          simp only [List.take_succ_cons] at this
          simp only [List.append_assoc,List.singleton_append,List.length_append,List.length_singleton]
          exact ⟨this.1,by omega⟩

theorem Speaks.readUntil : Speaks (readUntil done limit closed) fun a said heard => said=[] ∧ heard=a ∧ Upto done limit a := by
  intro c a c'
  unfold Talk.readUntil
  rw [readOn_iff]
  constructor
  · rintro ⟨more,ha,hu,hs,hd,hk⟩
    obtain rfl : a=more := ha
    exact ⟨[],a,⟨rfl,rfl,hd,fun k hklt => by simpa using hk k hklt⟩,by rw [hs,List.append_nil],hu⟩
  · rintro ⟨said,heard,⟨rfl,rfl,hd,hk⟩,hs,hu⟩
    exact ⟨heard,rfl,hu,by rw [hs,List.append_nil],hd,fun k hklt => by simpa using hk k hklt⟩

end

end Talk
