import HeaderSync.Document
import HeaderSync.Session.Config

/-!
# Session settings as documents

A missing field takes its default.
-/

namespace HeaderSync.Config

def fieldNames : List String :=
  ["commitment_period", "redownload_buffer_size", "max_future_block_time"]

def toValue (c : Config) : Value :=
  .table .inline
    [("commitment_period", .integer c.commitmentPeriod.toNat),
      ("redownload_buffer_size", .integer c.bufferSize.toNat),
      ("max_future_block_time", .integer c.maxFutureTime.toInt)]

def ofValue? (d : Dialect) (v : Value) : Option Config := do
  let fields ← v.record? d fieldNames
  let standard : Config := {}
  return {
    commitmentPeriod := ←
      Value.withDefault fields "commitment_period" standard.commitmentPeriod Value.toUInt64?
    bufferSize := ←
      Value.withDefault fields "redownload_buffer_size" standard.bufferSize Value.toUInt64?
    maxFutureTime := ←
      Value.withDefault fields "max_future_block_time" standard.maxFutureTime Value.toInt64? }

end HeaderSync.Config
