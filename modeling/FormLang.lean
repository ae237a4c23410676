import FormLang.Compile.Equality
import FormLang.Interpreter
import FormLang.Library.Find
import FormLang.Library.Tables
import FormLang.Proofs.Chunk.Growth
import FormLang.Proofs.Chunk.Limits
import FormLang.Proofs.Chunk.Observation
import FormLang.Proofs.Colour
import FormLang.Proofs.Compile.Calls
import FormLang.Proofs.Compile.Consultation
import FormLang.Proofs.Compile.Identity
import FormLang.Proofs.Compile.InPlace
import FormLang.Proofs.Compile.Meaning
import FormLang.Proofs.Compile.Printing
import FormLang.Proofs.Compile.Termination
import FormLang.Proofs.Library.Bindings
import FormLang.Proofs.Library.Checking
import FormLang.Proofs.Library.Comparison
import FormLang.Proofs.Machine.Decoding
import FormLang.Proofs.Machine.Isolation
import FormLang.Proofs.Observer
import FormLang.Proofs.Reader.Cutting
import FormLang.Proofs.Reader.Joining
import FormLang.Proofs.Reader.Printing
import FormLang.Proofs.Reader.Stopping
import FormLang.Proofs.Reader.Streaming
