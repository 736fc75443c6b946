import MiLsp.Store.Database

namespace MiLsp.Store

open Relation

structure JobState where
  status : IndexJobStatus
  requestedCancel : Bool
  publicationStarted : Bool

def IndexJob.state (job : IndexJob) : JobState :=
  ⟨job.status, job.requestedCancel, job.publicationStarted⟩

namespace JobState

inductive Step : JobState → JobState → Prop
  | start (started : Bool) : Step ⟨.queued, false, started⟩ ⟨.running, false, started⟩
  | publish : Step ⟨.running, false, false⟩ ⟨.publishing, false, true⟩
  | succeed : Step ⟨.publishing, false, true⟩ ⟨.succeeded, false, true⟩
  | skip : Step ⟨.running, false, false⟩ ⟨.succeeded, false, false⟩
  | fail {status : IndexJobStatus} (hactive : isIndexJobActive status = true)
      (canceled started : Bool) : Step ⟨status, canceled, started⟩ ⟨.failed, canceled, started⟩
  | cancelQueued (started : Bool) : Step ⟨.queued, false, started⟩ ⟨.canceled, true, started⟩
  | requestCancel (started : Bool) :
      Step ⟨.running, false, started⟩ ⟨.cancelRequested, true, started⟩
  | cancel {status : IndexJobStatus} (hstatus : status ∈ [.queued, .running, .cancelRequested]) :
      Step ⟨status, true, false⟩ ⟨.canceled, true, false⟩

abbrev Steps : JobState → JobState → Prop := ReflTransGen Step

variable {s s' : JobState}

theorem Step.active (h : Step s s') : isIndexJobActive s.status = true := by
  cases h with
  | fail hactive => exact hactive
  | @cancel status hstatus => cases status <;> simp_all [isIndexJobActive]
  | _ => rfl

theorem Step.requestedCancel (h : Step s s') (hs : s.requestedCancel = true) :
    s'.requestedCancel = true ∧ s'.status ≠ .succeeded := by
  cases h with
  | fail => exact ⟨hs, by simp⟩
  | cancel => exact ⟨rfl, by simp⟩
  | _ => simp at hs

theorem Steps.eq_of_inactive (h : Steps s s') (hs : isIndexJobActive s.status = false) :
    s' = s := by
  induction h with
  | refl => rfl
  | tail _ hstep ih =>
    rw [ih] at hstep
    rw [hstep.active] at hs
    cases hs

theorem Steps.requestedCancel (h : Steps s s') (hs : s.requestedCancel = true) :
    s'.requestedCancel = true ∧ (s.status ≠ .succeeded → s'.status ≠ .succeeded) := by
  induction h with
  | refl => exact ⟨hs, id⟩
  | tail _ hstep ih =>
    obtain ⟨hcancel, hstatus⟩ := hstep.requestedCancel ih.1
    exact ⟨hcancel, fun _ ↦ hstatus⟩

def Consistent (s : JobState) : Prop :=
  match s.status with
  | .queued | .running => s.requestedCancel = false ∧ s.publicationStarted = false
  | .publishing => s.requestedCancel = false ∧ s.publicationStarted = true
  | .cancelRequested => s.requestedCancel = true ∧ s.publicationStarted = false
  | .canceled => s.requestedCancel = true
  | .succeeded => s.requestedCancel = false
  | .failed => True

theorem Step.consistent (h : Step s s') (hs : s.Consistent) : s'.Consistent := by
  cases h with
  | fail => trivial
  | cancel => rfl
  | _ => simp_all [Consistent]

theorem Steps.consistent (h : Steps s s') (hs : s.Consistent) : s'.Consistent := by
  induction h with
  | refl => exact hs
  | tail _ hstep ih => exact hstep.consistent ih

end JobState

end MiLsp.Store
