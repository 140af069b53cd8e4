import TradeGate.Machine.Run
import TradeGate.Model.Execd

/-! What the transactions of execd do to the tables. -/
namespace TradeGate.Execd
open Js Threads Machine

/-- The policy that a request makes of the current one. -/
def PolicyRequest.next : PolicyRequest → ExecPolicy → ℤ → Except RpcError ExecPolicy
  | .set p, current, now =>
    (validateSet current p.policy p.confirm).map fun _ => { p.policy with updatedAt := now }
  | .stop p, current, now => applyEmergency current p.mode now

/-- The transaction that stores it. -/
def PolicyRequest.tx : PolicyRequest → ExecPolicy → ExecPolicy → Tx (List ExecEvent)
  | .set p, current, next => txPolicySet p current next
  | .stop p, _, next => txEmergencyStop p next

namespace Store

variable {db db' : Db}

theorem run_bind {α β : Type} {x : Tx α} {f : α → Tx β} {b : β} :
    (x >>= f).run db=.ok (b,db') ↔ ∃ a db₁, x.run db=.ok (a,db₁) ∧ (f a).run db₁=.ok (b,db') := by
  rw [StateT.run_bind,bind_ok]
  exact ⟨fun ⟨⟨a,db₁⟩,h⟩ => ⟨a,db₁,h⟩,fun ⟨a,db₁,h⟩ => ⟨(a,db₁),h⟩⟩

theorem ok_bind {α β : Type} (a : α) (f : α → Except String β) : (Except.ok a >>= f)=f a := rfl

theorem run_txUpsertPolicy (policy : ExecPolicy) :
    (txUpsertPolicy policy).run db=.ok ((),{ db with policy := some policy }) := rfl

/-- The event as it is stored. -/
def numbered (db : Db) (e : ExecEvent) : ExecEvent := { e with seq := db.seq+1 }

theorem run_txInsertEvent (e : ExecEvent) : (txInsertEvent e).run db =
    .ok (numbered db e,{ db with events := db.events++[numbered db e], seq := db.seq+1 }) := rfl

theorem run_txInsertIntent {i : Intent} : (txInsertIntent i).run db=.ok ((),db') ↔
    db.intents.any (hasId i.intentId)=false ∧
      (i.idempotencyKey.any fun key => db.intents.any (hasKey i.principal key))=false ∧
        db'={ db with intents := db.intents++[i] } := by
  unfold txInsertIntent
  cases h₁ : db.intents.any (hasId i.intentId)
  · cases h₂ : i.idempotencyKey.any fun key => db.intents.any (hasKey i.principal key)
    · simp only [StateT.run_bind,StateT.run_get,pure_bind,h₁,h₂,Bool.false_eq_true,if_false,true_and]
      exact ⟨fun h => (congrArg Prod.snd (Except.ok.inj h)).symm,fun h => h ▸ rfl⟩
    · simp only [StateT.run_bind,StateT.run_get,pure_bind,h₁,h₂,Bool.false_eq_true,if_false,if_true,
        Bool.true_eq_false,false_and,and_false,iff_false]
      exact nofun
  · simp only [StateT.run_bind,StateT.run_get,pure_bind,h₁,if_true,Bool.true_eq_false,false_and,iff_false]
    exact nofun

theorem run_txUpdateIntent {i : Intent} : (txUpdateIntent i).run db=.ok ((),db') ↔
    db.intents.any (hasId i.intentId)=true ∧
      db'={ db with intents := db.intents.map fun j => if hasId i.intentId j then i else j } := by
  unfold txUpdateIntent
  cases h : db.intents.any (hasId i.intentId)
  · simp only [StateT.run_bind,StateT.run_get,pure_bind,h,Bool.false_eq_true,if_false,false_and,iff_false]
    exact nofun
  · simp only [StateT.run_bind,StateT.run_get,pure_bind,h,if_true,true_and]
    exact ⟨fun h => (congrArg Prod.snd (Except.ok.inj h)).symm,fun h => h ▸ rfl⟩

theorem map_update {is : List Intent} {i j : Intent} (h : is.any (hasId i.intentId)=false)
    (hj : j.intentId=i.intentId) :
    (is++[i]).map (fun k => if hasId j.intentId k then j else k)=is++[j] := by
  rw [List.map_append,List.map_congr_left (g := id),List.map_id,List.map_singleton,hj]
  · simp [hasId]
  · intro k hk
    rw [hj,if_neg (by simpa using List.any_eq_false.mp h k hk)]
    rfl

end Store

open Store

section
variable {db db' : Db}

/-- The policy, and events. -/
theorem run_policy (r : PolicyRequest) (current next : ExecPolicy) (db : Db) :
    ∃ evs, (r.tx current next).run db=.ok (evs,{ db with
      policy := some next
      events := db.events++evs
      seq := db.seq+evs.length }) := by
  cases r with
  | stop p =>
    simp only [PolicyRequest.tx,txEmergencyStop,StateT.run_bind,run_txUpsertPolicy,run_txInsertEvent,
      ok_bind,StateT.run_pure]
    exact ⟨_,by rw [List.append_assoc]; rfl⟩
  | set p =>
    by_cases h : isHalted current=isHalted next
    · simp only [PolicyRequest.tx,txPolicySet,StateT.run_bind,run_txUpsertPolicy,run_txInsertEvent,
        ok_bind,ne_eq,h,not_true_eq_false,if_false,StateT.run_pure]
      exact ⟨_,rfl⟩
    · simp only [PolicyRequest.tx,txPolicySet,StateT.run_bind,run_txUpsertPolicy,run_txInsertEvent,
        ok_bind,ne_eq,h,not_false_eq_true,if_true,StateT.run_pure]
      exact ⟨_,by rw [List.append_assoc]; rfl⟩

theorem run_txReject {p : IntentRejectParams} {i : Intent} {now : ℤ} {evs : List ExecEvent}
    (h : (txReject p i now).run db=.ok (evs,db')) : db.intents.any (hasId i.intentId)=true ∧
      evs=[numbered db (rejectedEvent p i now)] ∧ db'={ db with
        intents := db.intents.map fun j => if hasId i.intentId j then i else j
        events := db.events++evs
        seq := db.seq+1 } := by
  unfold txReject at h
  obtain ⟨⟨⟩,db₁,h₁,h⟩ := run_bind.mp h
  obtain ⟨hany,rfl⟩ := run_txUpdateIntent.mp h₁
  simp only [StateT.run_bind,run_txInsertEvent,ok_bind,StateT.run_pure] at h
  cases h
  exact ⟨hany,rfl,rfl⟩

variable [Crates]

/-- A row under a free id and a free key, and its events; the row is as proposed, or as gated. -/
theorem run_txPropose {i j : Intent} {gs : List GateRejection} {next : Option (IntentStatus × String)}
    {now : ℤ} {evs : List ExecEvent} (h : (txPropose i gs next now).run db=.ok ((j,evs),db')) :
    db.intents.any (hasId i.intentId)=false ∧
      (i.idempotencyKey.any fun key => db.intents.any (hasKey i.principal key))=false ∧
      db'={ db with intents := db.intents++[j], events := db.events++evs, seq := db.seq+evs.length } ∧
      ((next=none ∧ j=i ∧ evs=[numbered db (createdEvent i now)]) ∨
        ∃ target name, next=some (target,name) ∧ i.status.canTransitionTo target=true ∧
          j=gated i gs target now ∧ evs=[numbered db (createdEvent i now),
            { gatedEvent (gated i gs target now) gs target name now with seq := db.seq+2 }]) := by
  unfold txPropose at h
  obtain ⟨⟨⟩,db₁,h₁,h⟩ := run_bind.mp h
  obtain ⟨hid,hkey,rfl⟩ := run_txInsertIntent.mp h₁
  refine ⟨hid,hkey,?_⟩
  simp only [StateT.run_bind,run_txInsertEvent,ok_bind] at h
  cases next with
  | none =>
    simp only [StateT.run_pure] at h
    cases h
    exact ⟨rfl,.inl ⟨rfl,rfl,rfl⟩⟩
  | some x =>
    obtain ⟨target,name⟩ := x
    unfold IntentStatus.transitionTo at h
    cases hc : i.status.canTransitionTo target with
    | false =>
      simp only [hc,Bool.false_eq_true,if_false] at h
      cases h
    | true =>
      simp only [hc,if_true] at h
      obtain ⟨⟨⟩,db₂,h₂,h⟩ := run_bind.mp h
      obtain ⟨-,rfl⟩ := run_txUpdateIntent.mp h₂
      simp only [StateT.run_bind,run_txInsertEvent,ok_bind,StateT.run_pure] at h
      cases h
      rw [map_update (j := gated i gs target now) hid rfl]
      exact ⟨by rw [List.append_assoc]; rfl,.inr ⟨target,name,rfl,hc,rfl,rfl⟩⟩

/-- A row under a free id and a free key goes in, and its next status is in the table. -/
theorem exists_run_txPropose {i : Intent} {gs : List GateRejection} {next : Option (IntentStatus × String)}
    {now : ℤ} (hid : db.intents.any (hasId i.intentId)=false)
    (hkey : (i.idempotencyKey.any fun key => db.intents.any (hasKey i.principal key))=false)
    (hnext : ∀ x ∈ next, i.status.canTransitionTo x.1=true) :
    ∃ x, (txPropose i gs next now).run db=.ok x := by
  unfold txPropose
  simp only [StateT.run_bind,run_txInsertIntent.mpr ⟨hid,hkey,rfl⟩,run_txInsertEvent,ok_bind]
  cases next with
  | none => exact ⟨_,rfl⟩
  | some x =>
    obtain ⟨target,name⟩ := x
    have hc : i.status.canTransitionTo target=true := hnext _ rfl
    unfold IntentStatus.transitionTo
    simp only [hc,if_true]
    have hrow : (db.intents++[i]).any (hasId (gated i gs target now).intentId)=true := by
      simp [hasId,gated]
    exact ⟨_,run_bind.mpr ⟨(),_,run_txUpdateIntent.mpr ⟨hrow,rfl⟩,rfl⟩⟩

end
end TradeGate.Execd
