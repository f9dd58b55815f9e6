import LC3.Main
import LC3.Session
import LC3.Proofs.Assembly.Denotation
import LC3.Proofs.Assembly.Placement
import LC3.Proofs.Assembly.Emission
import LC3.Proofs.Machine.Architecture
import LC3.Proofs.Machine.Refinement
import LC3.Proofs.Assembly.Literal
import LC3.Proofs.Assembly.Token
import LC3.Proofs.Listing.Encoding
import LC3.Proofs.Listing.Rows
import LC3.Proofs.Listing.Source
import LC3.Proofs.Listing.Assembled
import LC3.Proofs.Listing.FixedPoint
import LC3.Proofs.Image.Hexadecimal
import LC3.Proofs.Machine.Console
import LC3.Proofs.Machine.Handshake
import LC3.Proofs.Machine.Integers
import LC3.Proofs.Machine.WordRange
import LC3.Proofs.Assembly.Grammar
import LC3.Proofs.Assembly.Readable
import LC3.Proofs.Assembly.Overlong
import LC3.Proofs.Assembly.Wording
import LC3.Proofs.Assembly.Faults
import LC3.Proofs.Assembly.Acceptance
import LC3.Proofs.Assembly.Relocation
import LC3.Proofs.Assembly.Location
import LC3.Proofs.Machine.Budget
import LC3.Proofs.Machine.Touched
import LC3.Proofs.Assembly.Rearrangement
import LC3.Proofs.Image.Object
import LC3.Proofs.Image.Assembled
import LC3.Proofs.Machine.Status
import LC3.Proofs.Listing.Target
import LC3.Proofs.Assembly.Spelling
import LC3.Proofs.Assembly.Cutting
import LC3.Proofs.Assembly.Quoting
import LC3.Proofs.Machine.Objects
import LC3.Proofs.Machine.Value
import LC3.Proofs.Machine.Snapshot
import LC3.Proofs.Assembly.NormalForm
import LC3.Proofs.Machine.Loading
import LC3.Proofs.Image.Exact
import LC3.Proofs.Image.Reading
import LC3.Proofs.Assembly.FirstLine
import LC3.Proofs.Outcome.Unwrap
import LC3.Proofs.Memory.Dump
import LC3.Proofs.Listing.Names
import LC3.Proofs.Word
import LC3.Proofs.Numeral.Written
