import Keyspan.Key.Sort
import Keyspan.Proofs.Bound.Config
import Keyspan.Proofs.Bound.Interval
import Keyspan.Proofs.Bytes
import Keyspan.Proofs.Checksum
import Keyspan.Proofs.Compression.Literal
import Keyspan.Proofs.Cursor.Agreement
import Keyspan.Proofs.Cursor.Amend
import Keyspan.Proofs.Cursor.Change
import Keyspan.Proofs.Cursor.Clip
import Keyspan.Proofs.Cursor.Deciding
import Keyspan.Proofs.Cursor.Effect
import Keyspan.Proofs.Cursor.Ending
import Keyspan.Proofs.Cursor.Finds
import Keyspan.Proofs.Cursor.Leading
import Keyspan.Proofs.Cursor.Nearest
import Keyspan.Proofs.Cursor.Parallel
import Keyspan.Proofs.Cursor.Parts
import Keyspan.Proofs.Cursor.Quiet
import Keyspan.Proofs.Cursor.Recalls
import Keyspan.Proofs.Cursor.Resume
import Keyspan.Proofs.Cursor.Rounds
import Keyspan.Proofs.Cursor.Search
import Keyspan.Proofs.Cursor.Step
import Keyspan.Proofs.Cursor.Stream
import Keyspan.Proofs.Cursor.Sweep
import Keyspan.Proofs.Cursor.Tally
import Keyspan.Proofs.Cursor.Twins
import Keyspan.Proofs.Cursor.Visible
import Keyspan.Proofs.Cursor.Walk
import Keyspan.Proofs.Key.Decoded
import Keyspan.Proofs.Key.Language
import Keyspan.Proofs.Key.Leading
import Keyspan.Proofs.Key.Precedes
import Keyspan.Proofs.Key.RoundTrip
import Keyspan.Proofs.Key.Shape
import Keyspan.Proofs.Key.Typed
import Keyspan.Proofs.Outcome
import Keyspan.Proofs.Page.Contents
import Keyspan.Proofs.Page.Corruption
import Keyspan.Proofs.Page.Grammar
import Keyspan.Proofs.Page.Image
import Keyspan.Proofs.Page.Reload
import Keyspan.Proofs.Session.Agreement
import Keyspan.Proofs.Session.Apart
import Keyspan.Proofs.Session.Autocommit
import Keyspan.Proofs.Session.Balance
import Keyspan.Proofs.Session.Clipping
import Keyspan.Proofs.Session.Ending
import Keyspan.Proofs.Session.Failure
import Keyspan.Proofs.Session.FarBound
import Keyspan.Proofs.Session.History
import Keyspan.Proofs.Session.Independence
import Keyspan.Proofs.Session.Isolation
import Keyspan.Proofs.Session.Leading
import Keyspan.Proofs.Session.Nearest
import Keyspan.Proofs.Session.Neighbour
import Keyspan.Proofs.Session.OrderedMap
import Keyspan.Proofs.Session.Paging
import Keyspan.Proofs.Session.Peers
import Keyspan.Proofs.Session.Range
import Keyspan.Proofs.Session.Reach
import Keyspan.Proofs.Session.Run
import Keyspan.Proofs.Session.Shown
import Keyspan.Proofs.Session.Snapshot
import Keyspan.Proofs.Session.Sound
import Keyspan.Proofs.Session.Staged
import Keyspan.Proofs.Session.Sweep
import Keyspan.Proofs.Session.Walk
import Keyspan.Proofs.Store.Append
import Keyspan.Proofs.Store.Balance
import Keyspan.Proofs.Store.Chains
import Keyspan.Proofs.Store.Eviction
import Keyspan.Proofs.Store.Flat
import Keyspan.Proofs.Store.Layout
import Keyspan.Proofs.Store.Parts
import Keyspan.Proofs.Store.Refinement
import Keyspan.Proofs.Store.Resident
import Keyspan.Proofs.Store.Retry
import Keyspan.Proofs.Store.Seek
import Keyspan.Proofs.Store.Twins
import Keyspan.Proofs.Store.Valid
import Keyspan.Proofs.Store.Weight
import Keyspan.Proofs.Table.Twins
import Keyspan.Proofs.Table.Write
import Keyspan.Proofs.Text.Trim
import Keyspan.Proofs.Txn.Desk
import Keyspan.Proofs.Txn.Entrant
import Keyspan.Proofs.Txn.Ledger
import Keyspan.Proofs.Txn.Log
import Keyspan.Proofs.Txn.Visibility
import Keyspan.Proofs.Varint
import Keyspan.Proofs.Varint.Words
import Keyspan.Session.Basic
