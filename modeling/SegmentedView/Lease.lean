import SegmentedView.Event
import SegmentedView.Store.Basic

/-!
# Leases

A counted hold on one store generation. It starts with one holder, further
holders may join while there is one, and when the last one leaves, the
generation goes back to the store. From then on nobody can join or leave.
-/

set_option autoImplicit false

namespace SegmentedView

/-- A counted hold on the store generation of a version. -/
structure Lease where
  version : Nat
  refs : Nat
  /-- Whether the generation went back to the store. -/
  released : Bool
  deriving DecidableEq, Repr

namespace Lease

/-- A lease with its first holder. -/
def new (version : Nat) : Lease := ⟨version, 1, false⟩

/-- A lease that nobody ever held. -/
def vacant : Lease := ⟨0, 0, true⟩

/-- One more holder, if there is one already. -/
def take (l : Lease) : Except Error Lease :=
  if l.refs = 0 then .error (.leaseSpent l.version) else .ok { l with refs := l.refs + 1 }

/-- What came of giving a lease back to a store. -/
structure Returned (σ : Type) where
  result : Except Error Unit
  lease : Lease
  store : σ
  events : List Event

/-- Hands the generation to the store, unless it went there before. -/
def releaseOnce {σ : Type} [SegmentStore σ] (l : Lease) (store : σ) : Returned σ :=
  if l.released then ⟨.ok (), l, store, []⟩
  else ⟨.ok (), { l with released := true }, SegmentStore.release store l.version,
    [.releasing l.version]⟩

/-- One holder less; the last one hands the generation to the store. -/
def giveBack {σ : Type} [SegmentStore σ] (l : Lease) (store : σ) : Returned σ :=
  if l.refs = 0 then
    ⟨.error (.leaseSpent l.version), l, store, [.overReturned l.version]⟩
  else if l.refs = 1 then { l with refs := 0 }.releaseOnce store
  else ⟨.ok (), { l with refs := l.refs - 1 }, store, []⟩

end Lease

end SegmentedView
