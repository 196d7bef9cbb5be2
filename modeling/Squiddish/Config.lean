import Squiddish.Lib.Text

/-!
# Config — the settings the request path reads
-/

namespace Squiddish

open Lib

structure CacheConfig where
  memorySize : Nat
  diskSize : Nat
  ttlSeconds : Nat
  deriving DecidableEq, Repr

structure AptConfig where
  enabled : Bool
  listTtlSeconds : Nat
  packageTtlSeconds : Nat
  otherTtlSeconds : Nat
  deriving DecidableEq, Repr

structure SecurityConfig where
  maxBodySize : Nat
  maxConnections : Nat
  timeoutSeconds : Nat
  strictHttps : Bool
  allowedHosts : List Str
  blockedHosts : List Str
  deriving DecidableEq, Repr

structure Config where
  cache : CacheConfig
  apt : AptConfig
  security : SecurityConfig
  deriving DecidableEq, Repr

/-- `Config::default`. -/
def Config.default : Config :=
  { cache :=
      { memorySize := 1024 * 1024 * 1024
        diskSize := 100 * 1024 * 1024 * 1024
        ttlSeconds := 7 * 24 * 60 * 60 }
    apt :=
      { enabled := true
        listTtlSeconds := 60 * 60
        packageTtlSeconds := 30 * 24 * 60 * 60
        otherTtlSeconds := 24 * 60 * 60 }
    security :=
      { maxBodySize := 10 * 1024 * 1024 * 1024
        maxConnections := 1000
        timeoutSeconds := 300
        strictHttps := true
        allowedHosts := []
        blockedHosts := [] } }

end Squiddish
