import SegmentedView.System.Basic

/-!
# The life of a view

Opening a view over the store's current generation, refreshing it, copying it,
holding its generation, and letting go of it. An opening that fails after the
store was enumerated gives the generation back at once.
-/

set_option autoImplicit false

namespace SegmentedView

/-- What a reopen came to: the very same view, or a new one. -/
inductive Reopened
  | same
  | fresh (slot : Nat)
  deriving DecidableEq, Repr

namespace System

variable {σ P : Type}

/-- A holder joins the lease of a view. -/
def takeLease (s : System σ P) (i : Nat) : Outcome σ P Unit :=
  match (s.lease i).take with
  | .error e => s.fail e
  | .ok l => (s.setLease i l).done ()

variable [SegmentStore σ]

/-- A holder leaves a lease. -/
def giveBackLease (s : System σ P) (i : Nat) : Outcome σ P Unit :=
  let returned := (s.lease i).giveBack s.store
  ⟨returned.result, { s.setLease i returned.lease with store := returned.store },
    returned.events⟩

/-- Fails unless a view can be built over this kind of store. -/
def checkComposite (store : σ) : Except Error Unit :=
  match SegmentStore.kind store with
  | .composite => .ok ()
  | .single => .error (.storeNotComposite .single)

/-- Enumerates the store and adds a view of that generation with a lease of its
own, which takes over what it can from `prior`. The new view holds the number
after those given out before. -/
def openGeneration (s : System σ P) (prior : List (Snapshot P)) (d : Decorator P)
    (config : Config) : Outcome σ P (Nat × Nat × ReuseStats) :=
  match checkComposite s.store with
  | .error e => s.fail e
  | .ok () =>
    let enumerated := SegmentStore.enumerate s.store
    let s := { s with store := enumerated.2 }
    match enumerated.1 with
    | .error e => s.fail e
    | .ok g =>
      match g.assemble prior d config s.leases.length with
      | .error e =>
        let returned := (Lease.new g.version).giveBack s.store
        ⟨.error e, { s with store := returned.store }, returned.events⟩
      | .ok assembly =>
        let v : View P :=
          { lease := s.leases.length, decorator := d, config := config,
            segments := assembly.snapshots, boundaries := assembly.boundaries }
        ((s.addLease (Lease.new g.version)).addView v).done
          (s.views.length, g.version, assembly.stats)

/-- Opens a view over the store's current generation. -/
def openView (s : System σ P) (d : Decorator P) (config : Config) : Outcome σ P Nat :=
  let opened := s.openGeneration [] d config
  ⟨opened.result.map (·.1), opened.system, opened.events⟩

/-- Refreshes a view, `nanos` being how long that took. If the store has not
changed since the view's generation, the answer is the view itself. -/
def reopen (s : System σ P) (slot : Nat) (nanos : Nat) : Outcome σ P Reopened :=
  match s.findOpenView slot with
  | .error e => s.fail e
  | .ok v =>
    match checkComposite s.store with
    | .error e => s.fail e
    | .ok () =>
      let returns := Event.reopenReturns nanos (v.config.isSlow nanos)
      if SegmentStore.hasChangedSince s.store (s.version v) then
        let opened := s.openGeneration v.segments v.decorator v.config
        match opened.result with
        | .error e => ⟨.error e, opened.system, opened.events⟩
        | .ok (fresh, version, stats) =>
          ⟨.ok (.fresh fresh), opened.system,
            opened.events ++
              [.refreshed (s.version v) version stats.reused stats.opened, returns true]⟩
      else ⟨.ok .same, s, [returns false]⟩

omit [SegmentStore σ] in
/-- Adds a copy of a view, which holds the same generation. -/
def copy (s : System σ P) (slot : Nat) : Outcome σ P Nat :=
  match s.findOpenView slot with
  | .error e => s.fail e
  | .ok v =>
    let taken := s.takeLease v.lease
    match taken.result with
    | .error e => ⟨.error e, taken.system, taken.events⟩
    | .ok () => ⟨.ok s.views.length, taken.system.addView v.copy, taken.events⟩

omit [SegmentStore σ] in
/-- Takes an extra hold on the generation of a view. -/
def incRef (s : System σ P) (slot : Nat) : Outcome σ P Unit :=
  match s.findOpenView slot with
  | .error e => s.fail e
  | .ok v => s.takeLease v.lease

/-- Gives back one hold on the generation of a view. -/
def decRef (s : System σ P) (slot : Nat) : Outcome σ P Unit :=
  match s.findView slot with
  | .error e => s.fail e
  | .ok v => s.giveBackLease v.lease

/-- Gives back the view's own hold, once. -/
def close (s : System σ P) (slot : Nat) : Outcome σ P Unit :=
  match s.findView slot with
  | .error e => s.fail e
  | .ok v =>
    if v.closed then s.done ()
    else (s.setView slot { v with closed := true }).giveBackLease v.lease

/-- Forgets a view; one that was not closed gives back its hold, whatever comes
of that. -/
def drop (s : System σ P) (slot : Nat) : Outcome σ P Unit :=
  match s.findView slot with
  | .error e => s.fail e
  | .ok v =>
    let s := s.removeView slot
    if v.closed then s.done ()
    else
      let returned := s.giveBackLease v.lease
      ⟨.ok (), returned.system, returned.events⟩

end System

end SegmentedView
