import MontyServer.Monty

/-!
# Resolving the limits a client asks for

A client may ask for lower limits than the server's ceilings and never gets higher ones. The module
follows `limits.rs`: every field falls back to the configured default and is then clamped.
-/

namespace MontyServer

/-- The bounds the server enforces on the limits clients request. -/
structure LimitBounds where
  defaultDuration : Duration
  maxDuration : Duration
  defaultMemoryBytes : Usize
  maxMemoryBytes : Usize
  defaultMaxAllocations : Usize
  maxAllocations : Usize
  defaultRecursionDepth : Usize
  maxRecursionDepth : Usize

/-- The limits as a client requests them. -/
structure LimitsRequest where
  maxDurationMs : Option UInt64 := none
  maxMemoryBytes : Option Usize := none
  maxAllocations : Option Usize := none
  maxRecursionDepth : Option Usize := none

/-- The limits an execution runs under. -/
structure ResolvedLimits where
  maxDuration : Duration
  maxMemoryBytes : Usize
  maxAllocations : Usize
  maxRecursionDepth : Usize
  gcInterval : Option Usize

/-- `cloned_or_default`: an absent request asks for nothing. -/
def clonedOrDefault : Option LimitsRequest → LimitsRequest
  | some r => r
  | none => {}

def ResolvedLimits.resolve (request : Option LimitsRequest) (bounds : LimitBounds) :
    ResolvedLimits :=
  let request := clonedOrDefault request
  { maxDuration :=
      min ((request.maxDurationMs.map Duration.fromMillis).getD bounds.defaultDuration)
        bounds.maxDuration
    maxMemoryBytes :=
      min (request.maxMemoryBytes.getD bounds.defaultMemoryBytes) bounds.maxMemoryBytes
    maxAllocations :=
      min (request.maxAllocations.getD bounds.defaultMaxAllocations) bounds.maxAllocations
    maxRecursionDepth :=
      min (request.maxRecursionDepth.getD bounds.defaultRecursionDepth) bounds.maxRecursionDepth
    gcInterval := none }

/-- Bounds no sample program comes near. -/
def Sample.bounds : LimitBounds := ⟨1000, 1000, 1024, 1024, 100, 100, 100, 100⟩

end MontyServer
