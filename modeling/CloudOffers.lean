import CloudOffers.Offer.Document
import CloudOffers.Inventory
import CloudOffers.Catalog
import CloudOffers.Metrics.Exposition
import CloudOffers.Refresh.Error
import CloudOffers.Source.CatalogFile
import CloudOffers.Source.Script
import CloudOffers.Refresh.Prices
import CloudOffers.Main
import CloudOffers.Refresh.Timeline
import CloudOffers.Source.Directory
import CloudOffers.Proofs.Inventory.Missing
import CloudOffers.Proofs.Store.History
import CloudOffers.Proofs.Catalog.Inventory
import CloudOffers.Proofs.Catalog.Prices
import CloudOffers.Proofs.Refresh.Isolation
import CloudOffers.Proofs.Refresh.Overlap
import CloudOffers.Proofs.Catalog.Attributes
import CloudOffers.Proofs.Refresh.Zones
import CloudOffers.Proofs.Refresh.Timeline
import CloudOffers.Proofs.Catalog.Format
import CloudOffers.Proofs.Formats
import CloudOffers.Proofs.Tool.Answer
import CloudOffers.Proofs.Server
import CloudOffers.Proofs.Catalog.Gauge
import CloudOffers.Proofs.Refresh.Idempotence
import CloudOffers.Proofs.Refresh.Discipline
import CloudOffers.Proofs.Metrics.Exposition
import CloudOffers.Proofs.Offer.Canonical
import CloudOffers.Proofs.Store.Accounting
import CloudOffers.Proofs.Settings.FirstFault
import CloudOffers.Proofs.Settings.Loading
import CloudOffers.Proofs.Tool.Refusal
