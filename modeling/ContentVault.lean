import ContentVault.Aead.Aes256
import ContentVault.Aead.Basic
import ContentVault.Aead.ChaCha20Poly1305
import ContentVault.Aead.Gcm
import ContentVault.Archiver.Archiving
import ContentVault.Archiver.Basic
import ContentVault.Archiver.Choices
import ContentVault.Archiver.Restoring
import ContentVault.Archiver.Sink
import ContentVault.Bytes
import ContentVault.Cipher.Basic
import ContentVault.Cipher.Frames
import ContentVault.Configuration.Basic
import ContentVault.Configuration.Document
import ContentVault.Configuration.Notary
import ContentVault.Derivation.Argon2
import ContentVault.Derivation.Hkdf
import ContentVault.Derivation.Hmac
import ContentVault.Derivation.KeyTable
import ContentVault.Derivation.Limits
import ContentVault.Derivation.Parameters
import ContentVault.Derivation.Pbkdf2
import ContentVault.Derivation.Secret
import ContentVault.Digest.Basic
import ContentVault.Digest.Blake2b
import ContentVault.Digest.Blake3
import ContentVault.Digest.Record
import ContentVault.Digest.Sha256
import ContentVault.Entry.Content
import ContentVault.Entry.Record
import ContentVault.Failure
import ContentVault.Jobs.Caretaker
import ContentVault.Jobs.Exclusion
import ContentVault.Jobs.Rules
import ContentVault.Json.Basic
import ContentVault.Json.Printer
import ContentVault.Json.Reader
import ContentVault.Json.Record
import ContentVault.Json.Token
import ContentVault.Notary.Basic
import ContentVault.Notary.Remote
import ContentVault.Origin.Basic
import ContentVault.Origin.Shelf
import ContentVault.Proofs.Stream.View
import ContentVault.Repeats.Guard
import ContentVault.Repeats.Sweeper
import ContentVault.Schedule.Basic
import ContentVault.Schedule.Ticker
import ContentVault.Store.Basic
import ContentVault.Store.Blobs
import ContentVault.Store.Cell
import ContentVault.Store.Directory
import ContentVault.Store.Medium
import ContentVault.Store.Records
import ContentVault.Store.Table
import ContentVault.Store.Uuid
import ContentVault.Stream.Channel
import ContentVault.Stream.Digesting
import ContentVault.Stream.Reader
import ContentVault.Stream.Tee
import ContentVault.Text.Base64
import ContentVault.Text.Hex
import ContentVault.Text.Letters
import ContentVault.Text.Literal
import ContentVault.Text.Printable
import ContentVault.Text.Utf8
import ContentVault.Time.Instant
import ContentVault.Time.Rfc3339
import ContentVault.Time.Timestamp
import ContentVault.Vault
import ContentVault.Web.Host
import ContentVault.Web.Url
import ContentVault.Proofs.Stream.Split
import ContentVault.Proofs.Stream.Sessions
import ContentVault.Proofs.Stream.Books
import ContentVault.Proofs.Stream.Progress
import ContentVault.Proofs.Stream.Outcome
import ContentVault.Proofs.Stream.Teardown
import ContentVault.Proofs.Stream.Backpressure
import ContentVault.Proofs.Stream.Reading
import ContentVault.Proofs.Stream.Crews
import ContentVault.Proofs.Stream.Ports
import ContentVault.Proofs.Stream.Causes
import ContentVault.Proofs.Stream.Feeds
import ContentVault.Proofs.Stream.Joining
import ContentVault.Proofs.Stream.Arrivals
import ContentVault.Proofs.Stream.Digested
import ContentVault.Proofs.Text.Spelling
import ContentVault.Proofs.Text.Trimming
import ContentVault.Proofs.Text.Pasted
import ContentVault.Proofs.Store.Reference
import ContentVault.Proofs.Time.Spelling
import ContentVault.Proofs.Time.Relaxed
import ContentVault.Proofs.Time.Order
import ContentVault.Proofs.Json.Scanning
import ContentVault.Proofs.Json.Reading
import ContentVault.Proofs.Json.Members
import ContentVault.Proofs.Json.Settled
import ContentVault.Proofs.Json.Records
import ContentVault.Proofs.Cipher.Frames
import ContentVault.Proofs.Cipher.Recorded
import ContentVault.Proofs.Entry.Shown
import ContentVault.Proofs.Entry.Written
import ContentVault.Proofs.Cipher.Layout
import ContentVault.Proofs.Cipher.Opening
import ContentVault.Proofs.Cipher.Grammar
import ContentVault.Proofs.Cipher.Interrupted
import ContentVault.Proofs.Cipher.Tampering
import ContentVault.Proofs.Cipher.Nonces
import ContentVault.Proofs.Cipher.Tasks
import ContentVault.Proofs.Cipher.Conveying
import ContentVault.Proofs.Store.Blobs
import ContentVault.Proofs.Store.Records
import ContentVault.Proofs.Store.Mapping
import ContentVault.Proofs.Store.Chronology
import ContentVault.Proofs.Store.Readback
import ContentVault.Proofs.Store.Transactions
import ContentVault.Proofs.Positions
import ContentVault.Proofs.Store.Uploads
import ContentVault.Proofs.Store.Depository
import ContentVault.Proofs.Store.Bindings
import ContentVault.Proofs.Archiver.Storing
import ContentVault.Proofs.Archiver.Archiving
import ContentVault.Proofs.Archiver.Restoring
import ContentVault.Proofs.Archiver.Sealing
import ContentVault.Proofs.Archiver.Delivering
import ContentVault.Proofs.Archiver.Answers
import ContentVault.Proofs.Archiver.Stages
import ContentVault.Proofs.Jobs.Collecting
import ContentVault.Proofs.Jobs.Errands
import ContentVault.Proofs.Jobs.Deleting
import ContentVault.Proofs.Jobs.Traffic
import ContentVault.Proofs.Jobs.Rivals
import ContentVault.Proofs.Jobs.Grace
import ContentVault.Proofs.Jobs.Latecomers
import ContentVault.Proofs.Repeats.Windows
import ContentVault.Proofs.Repeats.Refusals
import ContentVault.Proofs.Repeats.Overtaken
import ContentVault.Proofs.Jobs.Extremes
import ContentVault.Proofs.Jobs.Runs
import ContentVault.Proofs.Jobs.Shifts
import ContentVault.Proofs.Jobs.Locking
import ContentVault.Proofs.Jobs.Custody
import ContentVault.Proofs.Jobs.Upkeep
import ContentVault.Proofs.Jobs.Keeping
import ContentVault.Proofs.Jobs.Notarizing
import ContentVault.Proofs.Jobs.Submitting
import ContentVault.Proofs.Jobs.Fates
import ContentVault.Proofs.Jobs.Progress
import ContentVault.Proofs.Jobs.Underway
import ContentVault.Proofs.Jobs.Isolation
import ContentVault.Proofs.Configuration.Validation
import ContentVault.Proofs.Configuration.Usable
import ContentVault.Proofs.Derivation.Spelling
import ContentVault.Proofs.Configuration.Resolving
import ContentVault.Proofs.Configuration.Reloading
import ContentVault.Proofs.Configuration.Naming
import ContentVault.Proofs.Store.Refused
import ContentVault.Proofs.Store.Listed
import ContentVault.Proofs.Jobs.Leftovers
import ContentVault.Proofs.Notary.Answers
import ContentVault.Proofs.Jobs.Online
import ContentVault.Proofs.Archiver.Expecting
import ContentVault.Proofs.Jobs.Declared
