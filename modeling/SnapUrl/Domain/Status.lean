import SnapUrl.Domain.Destination

/-!
# The status of a link

`deriveStatus` of `packages/domain/src/destination.ts`, which the dashboard shows.  No
status is stored: archived comes before expired, expired before scheduled, scheduled
before expiring.
-/

namespace SnapUrl.Domain

inductive LinkStatus where
  | active
  | scheduled
  | expiring
  | expired
  | archived
deriving DecidableEq, Repr

/-- Seven days, in milliseconds. -/
def sevenDays : Int := 7 * 24 * 60 * 60 * 1000

/-- What the status is derived from. -/
structure StatusInput where
  archivedAt : Option DateInput
  expiresAt : Option DateInput
  activatesAt : Option DateInput
  clickLimit : Option Int
  clicks : Option Int
deriving DecidableEq, Repr

/-- A date that is there: every `Date` is, and a text unless it is empty. -/
def DateInput.truthy : DateInput → Bool
  | .date _ => true
  | .text s => s ≠ ""

def deriveStatus (p : Platform) (link : StatusInput) (now : Int) : LinkStatus :=
  if link.archivedAt.any DateInput.truthy then .archived
  else if link.clickLimit.any (· ≤ link.clicks.getD 0) then .expired
  else if (asDate p link.expiresAt).any (· ≤ now) then .expired
  else if (asDate p link.activatesAt).any (now < ·) then .scheduled
  else if (asDate p link.expiresAt).any (· - now ≤ sevenDays) then .expiring
  else .active

end SnapUrl.Domain
