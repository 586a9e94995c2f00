import AttestedKey.Argument.Write
import AttestedKey.AuthorizationList.Builder
import AttestedKey.Certificate.Chain
import AttestedKey.Der.Scanner
import AttestedKey.Der.Tree
import AttestedKey.Proofs.AuthorizationList.Form
import AttestedKey.Proofs.AuthorizationList.Written
import AttestedKey.Proofs.KeyDescription
import AttestedKey.Proofs.AuthorizationList.RoundTrip
import AttestedKey.Proofs.Rewriting
import AttestedKey.Proofs.AuthorizationList.Grammar
import AttestedKey.Proofs.Argument
import AttestedKey.Proofs.KeyDescription.RoundTrip
import AttestedKey.Proofs.Location
import AttestedKey.Proofs.Revalidation
import AttestedKey.Proofs.KeyDescription.Positional
import AttestedKey.Certificate.Library
import AttestedKey.Proofs.Certificate.Chain
import AttestedKey.Proofs.AuthorizationList.Order
import AttestedKey.Proofs.AuthorizationList.Staging
import AttestedKey.Proofs.AuthorizationList.LastWrite
import AttestedKey.Proofs.Der.Moved
import AttestedKey.Proofs.Moved
import AttestedKey.Proofs.Der.InPlace
import AttestedKey.Proofs.Der.Mirrors
import AttestedKey.Proofs.InPlace
import AttestedKey.Proofs.Slice
import AttestedKey.Proofs.AuthorizationList.Tags
import AttestedKey.Proofs.Excess
import AttestedKey.Proofs.Equality
import AttestedKey.Proofs.Reordered
import AttestedKey.Proofs.AuthorizationList.WellFormed
import AttestedKey.Proofs.Elsewhere
import AttestedKey.Proofs.AuthorizationList.Masks
import AttestedKey.Proofs.ApplicationId.Grammar
import AttestedKey.Proofs.AuthorizationList.Repetition
import AttestedKey.Proofs.OneForm
import AttestedKey.Proofs.TwosComplement
import AttestedKey.Proofs.Tiling
import AttestedKey.Proofs.SelfDelimiting
import AttestedKey.Proofs.SetOrder
