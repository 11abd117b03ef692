import RocketMem.Engine.Survival
import RocketMem.Server.Served

namespace RocketMem

variable {F : Type} [F64 F]

structure Clock.NotAfter (c c' : Clock) : Prop where
  boot : c'.boot = c.boot
  mono : c.mono ≤ c'.mono

theorem runEngine_reads_later {α : Type} {p : EngineProgram F α} (hp : Reads p) {env : Env}
    {c : Clock} (h : env.clock.NotAfter c) (st : Store F) :
    (runEngine env p st).2.live c = st.live c := by
  rw [Store.live_later h.boot h.mono, Store.live_later h.boot h.mono, runEngine_reads hp env st]

namespace Served

variable {x : Surroundings F} {xs : Nat → Surroundings F} {c : Clock}

theorem extractWriteCommandName_of_refuse {frame : Frame} (hreplica : x.isReplica = true)
    (h : x.refuse frame = none) : extractWriteCommandName frame = none := by
  unfold Surroundings.refuse at h
  split at h
  · cases h
  · by_contra hwrite
    have hsome : (extractWriteCommandName frame).isSome := Option.isSome_iff_ne_none.mpr hwrite
    rw [if_pos ⟨hreplica, hsome⟩] at h
    cases h

theorem dispatchAndLogGated_live (hreplica : x.isReplica = true) (hc : x.env.clock.NotAfter c)
    (w : Served F) (frame : Frame) :
    (w.dispatchAndLogGated x frame).after.store.live c = w.store.live c := by
  rcases dispatchAndLogGated_cases x w frame with ⟨reply, w', h, hstore⟩ | ⟨hpass, w', hstore, h⟩
  · rw [h, hstore]
  · rw [h, ← hstore]
    have hread := extractWriteCommandName_of_refuse hreplica hpass
    exact runEngine_reads_later (dispatch_reads hread) hc w'.store

theorem runQueued_live (hreplica : ∀ n, (xs n).isReplica = true)
    (hc : ∀ n, (xs n).env.clock.NotAfter c) (w : Served F) (frames : List Frame) :
    (w.runQueued xs frames).after.store.live c = w.store.live c := by
  induction frames generalizing xs w with
  | nil => rfl
  | cons frame frames ih =>
    have hfirst := dispatchAndLogGated_live (hreplica 0) (hc 0) w frame
    unfold runQueued
    dsimp only
    split
    · exact hfirst
    · exact (ih (fun n => hreplica (n + 1)) (fun n => hc (n + 1)) _).trans hfirst

theorem dispatchAndLog_live (hreplica : ∀ n, (xs n).isReplica = true)
    (hc : ∀ n, (xs n).env.clock.NotAfter c) (w : Served F) (frame : Frame) :
    (w.dispatchAndLog xs frame).after.store.live c = w.store.live c := by
  unfold dispatchAndLog
  split
  · rfl
  · split
    · rfl
    · split
      · rfl
      · unfold handleExec
        split
        · rfl
        · exact runQueued_live hreplica hc _ _
      · exact dispatchAndLogGated_live (hreplica 0) (hc 0) w frame

end Served

/-- Only commands of the write list change what clients see, and a replica carries out none of them
for a client. -/
theorem only_writes_change :
    (∀ (env : Env) (frame : Frame) (st : Store F),
      (runEngine env (dispatch env frame) st).2.live env.clock ≠ st.live env.clock →
        (extractWriteCommandName frame).isSome) ∧
    ∀ (xs : Nat → Surroundings F) (w : Served F) (frame : Frame) (c : Clock),
      (∀ n, (xs n).isReplica = true) → (∀ n, (xs n).env.clock.NotAfter c) →
        (w.receive xs frame).after.store.live c = w.store.live c := by
  constructor
  · intro env frame st hchange
    by_contra hread
    exact hchange (runEngine_reads (dispatch_reads (Option.not_isSome_iff_eq_none.mp hread)) env st)
  · intro xs w frame c hreplica hc
    have hdispatched := Served.dispatchAndLog_live hreplica hc w frame
    unfold Served.receive
    split
    · exact hdispatched
    · split
      · split <;> rfl
      · split
        · rfl
        · exact hdispatched

theorem only_writes_change_replica :
    ((Served.fresh (F := Score)).receive (fun _ => { Surroundings.standalone with isReplica := true })
      (.command [txt "SET", txt "k", txt "v"])).after.store.live .zero = Store.new.live .zero :=
  only_writes_change.2 _ _ _ _ (fun _ => rfl) fun _ => ⟨rfl, le_rfl⟩

end RocketMem
