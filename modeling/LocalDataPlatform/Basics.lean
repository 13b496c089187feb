import Mathlib.Data.Int.Notation

/-!
# Scalars shared by the stores of the platform

Timestamps are microseconds of one clock (the precision of PostgreSQL, Spark and Python
datetimes), money is a whole number of hundredths, and a business key is a 128-bit UUID.
-/

set_option autoImplicit false

namespace LocalDataPlatform

/-- A point in time: microseconds since 1970-01-01 00:00:00+00. -/
abbrev Instant := Int

/-- A fixed-point amount with two decimals, in hundredths. -/
abbrev Cents := Int

/-- A business key. -/
abbrev Uuid := BitVec 128

/-- The position of a record in Kafka. -/
structure Coord where
  topic : String
  partition : Int
  offset : Int
  deriving DecidableEq, Repr

/-- `1900-01-01 00:00:00+00`, the load time that precedes every load. -/
def beforeEveryLoad : Instant := -2208988800000000

end LocalDataPlatform
