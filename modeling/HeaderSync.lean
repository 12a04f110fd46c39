import HeaderSync.Header.Document
import HeaderSync.Params.File
import HeaderSync.Params.Preset
import HeaderSync.Session
import HeaderSync.Session.Document
import HeaderSync.Proofs.Linkage
import HeaderSync.Proofs.Session.Cursor
import HeaderSync.Proofs.Session.FirstPass
import HeaderSync.Proofs.Session.Run
import HeaderSync.Proofs.Session.Answer
import HeaderSync.Proofs.Session.Release
import HeaderSync.Proofs.Session.Alignment
import HeaderSync.Proofs.Session.RoundTrip
import HeaderSync.Proofs.ChainIndex.Lineage
import HeaderSync.Proofs.Retarget.Samples
import HeaderSync.Proofs.Window.Recent
import HeaderSync.Proofs.ChainIndex.WindowAgreement
import HeaderSync.Proofs.Session.Memory
import HeaderSync.Proofs.Session.Verdict
import HeaderSync.Proofs.Session.FirstOffence
import HeaderSync.Proofs.ChainIndex.Growth
import HeaderSync.Proofs.ChainIndex.Permission
import HeaderSync.Proofs.Session.HonestChain
import HeaderSync.Proofs.Time.Median
import HeaderSync.Proofs.ChainIndex.MedianTimes
import HeaderSync.Proofs.ChainIndex.Storage
import HeaderSync.ChainIndex.Arena
import HeaderSync.Proofs.ChainIndex.Arena
import HeaderSync.Proofs.ChainIndex.Positions
import HeaderSync.Proofs.ChainIndex.InsertionOrder
import HeaderSync.Proofs.Retarget.History
import HeaderSync.Proofs.ChainIndex.TruncatedHistory
import HeaderSync.Proofs.Session.Phases
import HeaderSync.Proofs.Session.Batching
import HeaderSync.Proofs.Session.Budget
import HeaderSync.Proofs.Session.KeySecrecy
import HeaderSync.Proofs.Compact.Value
import HeaderSync.Proofs.Compact.Rounding
import HeaderSync.Proofs.Params.Requirements
import HeaderSync.Proofs.Retarget.WindowRule
import HeaderSync.Proofs.Window.HarderSuccessor
import HeaderSync.Proofs.Window.Past
import HeaderSync.Proofs.ChainIndex.Acceptance
import HeaderSync.Proofs.UInt256.Scaled
import HeaderSync.Proofs.Params.Eras
import HeaderSync.Proofs.Retarget.IntervalRule
import HeaderSync.Proofs.Retarget.Transition
import HeaderSync.Proofs.ChainIndex.NoRetargeting
import HeaderSync.Proofs.ChainIndex.IntervalBits
import HeaderSync.Proofs.Compact.Reading
import HeaderSync.Proofs.Retarget.LookBack
import HeaderSync.Proofs.Session.Tallies
import HeaderSync.Proofs.ChainIndex.Locator
import HeaderSync.Proofs.UInt256.Numeral
import HeaderSync.Proofs.Header.Codec
import HeaderSync.Proofs.Header.Identity
import HeaderSync.Proofs.Toml.Scalar
import HeaderSync.Proofs.Toml.Lines
import HeaderSync.Proofs.Toml.Tables
import HeaderSync.Proofs.Params.Saved
