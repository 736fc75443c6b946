import MiLsp.Store.Publications

namespace MiLsp.Store

open MiLsp.Graph Library.Session Relation

def Operates (host : GraphHost) (db db' : Database) : Prop :=
  ∃ world op, Operation.apply host world db op = .ok db'

variable {host : GraphHost} {world : World} {α β : Type}

theorem Operation.apply_moved {op : Operation} {db db' : Database}
    (h : op.apply host world db = .ok db') :
    db'.leases = db.leases ∨ ∃ fence, Moved db db' op.jobID fence := by
  cases op with
  | running jobID pid name fence => exact .inr ⟨fence, markIndexJobRunning_moved h⟩
  | phase jobID status name fence => exact .inr ⟨fence, markIndexJobPhase_moved h⟩
  | progress jobID made fence => exact .inr ⟨fence, markIndexJobProgress_moved h⟩
  | succeeded jobID counts fence => exact .inr ⟨fence, (markIndexJobSucceeded_ended h).moved⟩
  | skipped jobID message fence =>
    obtain ⟨generations, rfl⟩ := markIndexGenerationSkipped_eq_ok h
    exact .inl rfl
  | failed jobID message fence => exact .inr ⟨fence, (markIndexJobFailed_ended h).moved⟩
  | canceled jobID fence => exact .inr ⟨fence, (markIndexJobCanceled_ended h).moved⟩
  | publish call mode counts body =>
    exact .inr ⟨call.fence, (publishOwned_ended PublicationBody.eval_control h).moved⟩
  | requestCancel jobID =>
    obtain rfl | hmoved := cancelTx_moved h
    · exact .inl rfl
    · exact .inr hmoved
  | terminating jobID fence => exact .inr ⟨fence, terminatingTx_moved h⟩

def Manages (host : GraphHost) (db db' : Database) : Prop :=
  ∃ world op, Operation.publishes op = false ∧ op.apply host world db = .ok db'

/-- A session that commits nothing but operations, and publishes nothing. -/
abbrev Managing (host : GraphHost) (m : StoreSession α) : Prop :=
  Within (ReflTransGen (Manages host)) m

namespace Managing

theorem pure (a : α) : Managing host (Pure.pure a) := within_pure (fun _ ↦ .refl) a

theorem throw (e : StoreError) : Managing host (MonadExcept.throw e : StoreSession α) :=
  within_throw (fun _ ↦ .refl) e

theorem get : Managing host (MonadState.get : StoreSession Database) :=
  within_get fun _ ↦ .refl

theorem operate (world : World) (op : Operation) (hop : op.publishes = false) :
    Managing host (transact fun db ↦ op.apply host world db) :=
  within_transact (fun _ ↦ .refl) fun _ _ h ↦ .single ⟨world, op, hop, h⟩

variable {m : StoreSession α}

theorem bind {f : α → StoreSession β} (hm : Managing host m) (hf : ∀ a, Managing host (f a)) :
    Managing host (m >>= f) :=
  within_bind (fun _ _ _ ↦ .trans) hm hf

theorem tryCatch {handler : StoreError → StoreSession α} (hm : Managing host m)
    (hhandler : ∀ e, Managing host (handler e)) : Managing host (MonadExcept.tryCatch m handler) :=
  within_tryCatch (fun _ _ _ ↦ .trans) hm hhandler

theorem ite {c : Prop} [Decidable c] {m' : StoreSession α} (hm : Managing host m)
    (hm' : Managing host m') : Managing host (if c then m else m') := by
  split
  · exact hm
  · exact hm'

end Managing

variable (jobID : String)

theorem loadIndexJobSnapshot_managing : Managing host (loadIndexJobSnapshot jobID) :=
  .bind .get fun _ ↦ .pure _

theorem reconcileIndexJobRead_managing (job : IndexJob) :
    Managing host (reconcileIndexJobRead world job) := by
  refine .bind .get fun db ↦ ?_
  dsimp only
  split
  next fence _ =>
    refine .ite (.pure _) (.bind (.tryCatch ?_ fun e ↦ .ite (.pure _) (.throw _)) fun _ ↦
      loadIndexJobSnapshot_managing _)
    exact .operate world (.failed job.jobID "stale index job process exited" fence) rfl
  · exact .pure _

theorem getIndexJob_managing : Managing host (getIndexJob world jobID) := by
  refine .bind .get fun db ↦ ?_
  split
  · exact reconcileIndexJobRead_managing _
  · exact .pure _

theorem firstActive_managing (candidates : List IndexJob) :
    Managing host (firstActive world candidates) := by
  induction candidates with
  | nil => exact .pure _
  | cons candidate rest ih =>
    refine .bind (reconcileIndexJobRead_managing candidate) fun loaded ↦ ?_
    split
    · exact .ite (.pure _) ih
    · exact ih

theorem activeIndexJob_managing (workspaceRoot : String) :
    Managing host (activeIndexJob world workspaceRoot) :=
  .bind .get fun _ ↦ firstActive_managing _

theorem requireIndexJob_managing : Managing host (requireIndexJob world jobID) := by
  refine .bind (getIndexJob_managing jobID) fun loaded ↦ ?_
  split
  · exact .pure _
  · exact .throw _

theorem requestIndexJobCancelByID_managing :
    Managing host (requestIndexJobCancelByID world jobID) := by
  refine .bind (requireIndexJob_managing jobID) fun loaded ↦ .ite (.pure _) ?_
  refine .bind (.operate world (.requestCancel jobID) rfl) fun _ ↦ ?_
  exact .bind (requireIndexJob_managing jobID) fun _ ↦ .pure _

theorem cancelIndexJob_managing (termination : Termination) (jobID : String) (force : Bool) :
    Managing host (cancelIndexJob world termination jobID force) := by
  unfold cancelIndexJob
  refine .ite (requestIndexJobCancelByID_managing jobID) ?_
  refine .bind (requireIndexJob_managing jobID) fun loaded ↦ .ite (.pure _) ?_
  refine .bind (requestIndexJobCancelByID_managing jobID) fun requested ↦ .ite (.pure _) ?_
  have hreload : Managing host (do return (← requireIndexJob world jobID).job) :=
    .bind (requireIndexJob_managing jobID) fun _ ↦ .pure _
  have hunlock : Managing host (liftExcept termination.unlock) := by
    cases termination.unlock with
    | ok => exact .pure _
    | error e => exact .throw e
  have hfinish : Managing host (do
      transact fun db ↦ markIndexJobCanceled db jobID (loaded.fence.getD ⟨"", 0⟩) world.now
      if loaded.job.pid > 0 then liftExcept termination.unlock
      return (← requireIndexJob world jobID).job) :=
    .bind (.operate world (.canceled jobID _) rfl) fun _ ↦
      .ite (.bind hunlock fun _ ↦ hreload) hreload
  have hterminating := Managing.bind
    (.operate world (.terminating jobID (loaded.fence.getD ⟨"", 0⟩)) rfl) fun _ ↦ hreload
  exact .ite (.ite (.bind (.throw _) fun _ ↦ .ite hterminating hfinish)
    (.ite hterminating hfinish)) hfinish

theorem Call.run_managing {call : Call} (h : ∀ op, call = .operate op → op.publishes = false)
    (host : GraphHost) (world : World) : Managing host (call.run host world) := by
  cases call with
  | operate op => exact .operate world op (h op rfl)
  | get jobID => exact .bind (getIndexJob_managing jobID) fun _ ↦ .pure _
  | active workspaceRoot => exact .bind (activeIndexJob_managing workspaceRoot) fun _ ↦ .pure _
  | requestCancel jobID => exact .bind (requestIndexJobCancelByID_managing jobID) fun _ ↦ .pure _
  | cancel termination jobID force =>
    exact .bind (cancelIndexJob_managing termination jobID force) fun _ ↦ .pure _

theorem Call.run_operates (call : Call) (host : GraphHost) (world : World) (db : Database) :
    ReflTransGen (Operates host) db ((call.run host world).exec db).2 := by
  by_cases h : ∀ op, call = .operate op → op.publishes = false
  · have hmono : ∀ db db', Manages host db db' → Operates host db db' :=
      fun _ _ ⟨world, op, _, hop⟩ ↦ ⟨world, op, hop⟩
    exact ReflTransGen.mono hmono _ _ (call.run_managing h host world db)
  · obtain ⟨op, rfl, -⟩ : ∃ op, call = .operate op ∧ ¬op.publishes = false := by simpa using h
    exact within_transact (fun _ ↦ .refl) (fun _ _ hop ↦ .single ⟨world, op, hop⟩) db

end MiLsp.Store
