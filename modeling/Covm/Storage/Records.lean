import Covm.Storage.Traits
import Mathlib.Algebra.Group.Nat.Defs

/-!
# Accounts and versions (`storage/resource.rs`, `storage/versioning.rs`)

A `ResourceAccount` counts the bytes a user has stored against a quota; its arithmetic saturates
at the bounds of `u64`. A `VersionInfo` is the newest version of a key and carries the older ones.
Both are given the time they read from the system clock.
-/

namespace Covm

/-- `u64::saturating_add`. -/
def saturatingAdd (a b : Nat) : Nat := min (a + b) (2 ^ 64 - 1)

theorem saturatingAdd_of_lt {a b : Nat} (h : a + b < 2 ^ 64) : saturatingAdd a b = a + b := by
  unfold saturatingAdd
  omega

structure ResourceAccount where
  ownerId : String
  storageQuotaBytes : Nat
  storageUsedBytes : Nat
  lastUpdated : Nat
  deriving DecidableEq

namespace ResourceAccount

def new (now : Nat) (ownerId : String) (storageQuotaBytes : Nat) : ResourceAccount :=
  ⟨ownerId, storageQuotaBytes, 0, now⟩

def canStore (account : ResourceAccount) (additionalBytes : Nat) : Bool :=
  decide (saturatingAdd account.storageUsedBytes additionalBytes ≤ account.storageQuotaBytes)

def addUsage (account : ResourceAccount) (now bytes : Nat) :
    Except StorageError ResourceAccount :=
  if !account.canStore bytes then
    .error (.quotaExceeded s!"Storage for account '{account.ownerId}'"
      account.storageUsedBytes account.storageQuotaBytes)
  else
    .ok { account with
      storageUsedBytes := saturatingAdd account.storageUsedBytes bytes
      lastUpdated := now }

theorem addUsage_ok {now : Nat} {account account' : ResourceAccount} {bytes : Nat}
    (h : account.addUsage now bytes = .ok account') :
    account'.storageUsedBytes = saturatingAdd account.storageUsedBytes bytes ∧
      account'.storageUsedBytes ≤ account.storageQuotaBytes := by
  unfold addUsage at h
  by_cases hfit : account.canStore bytes
  · rw [hfit] at h
    obtain rfl : _ = account' := Except.ok.inj h
    exact ⟨rfl, of_decide_eq_true hfit⟩
  · rw [Bool.not_eq_true] at hfit
    rw [hfit] at h
    exact nomatch h

theorem addUsage_quota {now : Nat} {account account' : ResourceAccount} {bytes : Nat}
    (h : account.addUsage now bytes = .ok account') :
    account'.storageQuotaBytes = account.storageQuotaBytes := by
  unfold addUsage at h
  split at h
  · exact nomatch h
  · obtain rfl : _ = account' := Except.ok.inj h
    rfl

def reduceUsage (account : ResourceAccount) (now bytes : Nat) : ResourceAccount :=
  { account with
    -- the subtraction of naturals saturates as `u64::saturating_sub` does
    storageUsedBytes := account.storageUsedBytes - bytes
    lastUpdated := now }

end ResourceAccount

structure VersionInfo where
  version : Nat
  createdBy : String
  timestamp : Nat
  prevVersion : Option VersionInfo

namespace VersionInfo

def new (now : Nat) (createdBy : String) : VersionInfo := ⟨1, createdBy, now, none⟩

def nextVersion (v : VersionInfo) (now : Nat) (createdBy : String) : VersionInfo :=
  ⟨saturatingAdd v.version 1, createdBy, now, some v⟩

/-- The oldest version first. -/
def getVersionHistory : VersionInfo → List VersionInfo
  | v@⟨_, _, _, none⟩ => [v]
  | v@⟨_, _, _, some prev⟩ => prev.getVersionHistory ++ [v]

/-- The search among the older versions. -/
def findOlder (versionNumber : Nat) : VersionInfo → Option VersionInfo
  | ⟨_, _, _, none⟩ => none
  | ⟨_, _, _, some prev⟩ =>
    if prev.version = versionNumber then some prev else prev.findOlder versionNumber

def getVersion (v : VersionInfo) (versionNumber : Nat) : Option VersionInfo :=
  if versionNumber = v.version then some v
  else if v.version < versionNumber then none
  else v.findOlder versionNumber

end VersionInfo

end Covm
