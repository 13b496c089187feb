import LocalDataPlatform.Cdc.Compaction
import LocalDataPlatform.Cdc.Deployments
import LocalDataPlatform.Cdc.Reconcile
import LocalDataPlatform.Cdc.SmokeTests
import LocalDataPlatform.Gateway.Lakehouse
import LocalDataPlatform.Pipeline.AdjacentBackfills
import LocalDataPlatform.Pipeline.Barrier
import LocalDataPlatform.Pipeline.DataGenerator
import LocalDataPlatform.Pipeline.DataTests
import LocalDataPlatform.Pipeline.Measures
import LocalDataPlatform.Pipeline.Publication
import LocalDataPlatform.Pipeline.Refresh
import LocalDataPlatform.Pipeline.Relationships
import LocalDataPlatform.Pipeline.Reset
import LocalDataPlatform.Sales.Amounts
import LocalDataPlatform.Sales.CurrentCustomers
import LocalDataPlatform.Sales.CustomerKeys
import LocalDataPlatform.Sales.Freshness
import LocalDataPlatform.Sales.HighWater
import LocalDataPlatform.Sales.TemporalJoin
import LocalDataPlatform.Stream.Accounting
import LocalDataPlatform.Stream.CurrentOrders
import LocalDataPlatform.Stream.Delivery
