import TargetDiscovery.SortedMap

/-!
# Scrape targets

A target is an address that is scraped for a job on behalf of an instance, with labels for the
scrape pipeline. Instance, job and address identify it; the labels do not.
-/

set_option autoImplicit false

namespace TargetDiscovery

abbrev Labels := Dict Bytes

structure Target where
  owner : Bytes
  job : Bytes
  address : Bytes
  labels : Labels
  deriving DecidableEq, Repr, Inhabited

abbrev Identity := Bytes × Bytes × Bytes

namespace Target

def identity (t : Target) : Identity := (t.owner, t.job, t.address)

def upTo (t u : Target) : Bool := Ranked.upTo t.identity u.identity

end Target

end TargetDiscovery
